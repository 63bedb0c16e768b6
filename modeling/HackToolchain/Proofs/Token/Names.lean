import HackToolchain.Proofs.Token.Passing

namespace HackToolchain

/-!
# Names in sources

A name that stands in a source is not empty and is made of the characters that its dialect lets a name
have.  So it holds no dollar sign unless the dialect is that of assembly, and of two dialects one may
allow marks in a name that the other does not.

That is a property of tokens.  Productions only hand on what they find in the tokens of a cursor, so
what the tokens have carries over to the items that are read from them.
-/

/-- A text that a scanner of the dialect takes for a name or a keyword. -/
structure Dialect.IsName (dialect : Dialect) (name : String) : Prop where
  nonempty : name ≠ ""
  characters : ∀ character ∈ name.toList,
    dialect.startsName character = true ∨ dialect.continuesName character = true

/-- A mark that no name of the dialect may hold is not in any of its names. -/
theorem Dialect.IsName.notMem {dialect : Dialect} {name : String} (isName : dialect.IsName name)
    {mark : Char} (notStart : dialect.startsName mark = false)
    (notRest : dialect.continuesName mark = false) : mark ∉ name.toList := by
  intro member
  rcases isName.characters mark member with starts | continues
  · rw [notStart] at starts
    cases starts
  · rw [notRest] at continues
    cases continues

/-- A text that is scanned as one piece, for a name or a keyword: a character that names start with,
and behind it only characters that names go on with. -/
def Dialect.IsWord (dialect : Dialect) : List Char -> Prop
  | [] => False
  | first :: rest =>
    dialect.startsName first = true ∧ ∀ character ∈ rest, dialect.continuesName character = true

instance (dialect : Dialect) : DecidablePred dialect.IsWord
  | [] => instDecidableFalse
  | first :: rest =>
    decidable_of_iff ((dialect.startsName first && rest.all dialect.continuesName) = true)
      (by rw [Bool.and_eq_true, List.all_eq_true, Dialect.IsWord])

/-- A text that is scanned as one name. -/
structure Dialect.IsIdentifier (dialect : Dialect) (name : String) : Prop where
  word : dialect.IsWord name.toList
  notKeyword : dialect.keyword? name = none

instance (dialect : Dialect) : DecidablePred dialect.IsIdentifier := fun name =>
  decidable_of_iff (dialect.IsWord name.toList ∧ dialect.keyword? name = none)
    ⟨fun both => ⟨both.1, both.2⟩, fun isIdentifier => ⟨isIdentifier.word, isIdentifier.notKeyword⟩⟩

theorem Dialect.IsIdentifier.isName {dialect : Dialect} {name : String}
    (isIdentifier : dialect.IsIdentifier name) : dialect.IsName name := by
  have word := isIdentifier.word
  rcases spelled : name.toList with _ | ⟨first, rest⟩
  · rw [spelled] at word
    exact word.elim
  · rw [spelled] at word
    constructor
    · rintro rfl
      cases spelled
    · rw [spelled, List.forall_mem_cons]
      exact ⟨.inl word.1, fun character member => .inr (word.2 character member)⟩

/-! ## Words -/

namespace Dialect

variable {dialect other : Dialect}

/-- A name may go on with all that it may start with. -/
theorem continuesName_of_startsName {character : Char} (starts : dialect.startsName character = true) :
    dialect.continuesName character = true := by
  simp only [startsName, continuesName, Char.isAlphanum, Bool.or_eq_true, beq_iff_eq,
    Bool.and_eq_true] at starts ⊢
  rcases starts with (letter | rfl) | mark
  · exact .inl (.inl letter)
  · exact .inr (by cases dialect <;> decide)
  · exact .inr mark.2

theorem IsWord.continues {word : List Char} (isWord : dialect.IsWord word) :
    ∀ character ∈ word, dialect.continuesName character = true := by
  cases word with
  | nil => exact isWord.elim
  | cons first rest => exact List.forall_mem_cons.mpr ⟨continuesName_of_startsName isWord.1, isWord.2⟩

theorem IsWord.append {front behind : List Char} (isWord : dialect.IsWord front)
    (continues : ∀ character ∈ behind, dialect.continuesName character = true) :
    dialect.IsWord (front ++ behind) := by
  cases front with
  | nil => exact isWord.elim
  | cons first rest => exact ⟨isWord.1, List.forall_mem_append.mpr ⟨isWord.2, continues⟩⟩

theorem IsWord.of_append {front behind : List Char} (isWord : dialect.IsWord (front ++ behind))
    (nonempty : front ≠ []) : dialect.IsWord front := by
  cases front with
  | nil => exact absurd rfl nonempty
  | cons first rest => exact ⟨isWord.1, (List.forall_mem_append.mp isWord.2).1⟩

/-- A word is one of every dialect with the same marks or more.  Assembly is left out because it lets
words start with marks. -/
theorem IsWord.widen {word : List Char} (isWord : dialect.IsWord word) (plain : dialect ≠ .asm)
    (marks : dialect.nameMarks ⊆ other.nameMarks) : other.IsWord word := by
  cases word with
  | nil => exact isWord.elim
  | cons first rest =>
      refine ⟨?_, fun character member => ?_⟩
      · have starts := isWord.1
        simp only [startsName, Bool.or_eq_true, Bool.and_eq_true, beq_iff_eq, plain, false_and,
          or_false] at starts ⊢
        exact .inl starts
      · have continues := isWord.2 character member
        simp only [continuesName, Bool.or_eq_true, List.contains_iff_mem] at continues ⊢
        exact continues.imp_right fun mark => marks mark

/-- The stack language allows all marks of the class language in names. -/
theorem IsWord.ofJack {word : List Char} (isWord : Dialect.jack.IsWord word) :
    Dialect.vm.IsWord word := isWord.widen (by decide) (by decide)

/-- Assembly allows all marks of the stack language in names. -/
theorem IsWord.ofVm {word : List Char} (isWord : Dialect.vm.IsWord word) :
    Dialect.asm.IsWord word := isWord.widen (by decide) (by decide)

end Dialect

/-! ## Tokens -/

/-- The token holds a name of the dialect if it is the token of a name. -/
def Token.Names (dialect : Dialect) (token : Token) : Prop :=
  token.kind = .identifier -> dialect.IsName token.literal

/-- The token is scanned as one name of the dialect if it is the token of a name. -/
def Token.Identifies (dialect : Dialect) (token : Token) : Prop :=
  token.kind = .identifier -> dialect.IsIdentifier token.literal

namespace Lexeme

/-- Among the lexemes only words are names. -/
theorem ofText_of_identifier {dialect : Dialect} {first : Char} {rest : List Char}
    (isIdentifier : (ofText dialect first rest).kind = .identifier) :
    dialect.startsName first = true ∧ ofText dialect first rest = word dialect first rest := by
  have carriage : (carriageReturn rest).kind ≠ .identifier := by
    unfold carriageReturn
    split <;> exact nofun
  have slashed : (slash rest).kind ≠ .identifier := by
    unfold slash
    split
    · exact nofun
    · unfold blockComment
      split <;> exact nofun
    · exact nofun
  have quoted : (string rest).kind ≠ .identifier := by
    unfold string
    dsimp only
    split <;> exact nofun
  unfold ofText at isIdentifier ⊢
  split at isIdentifier
  · cases isIdentifier
  split at isIdentifier
  · exact absurd isIdentifier carriage
  split at isIdentifier
  · exact absurd isIdentifier slashed
  split at isIdentifier
  · exact absurd isIdentifier quoted
  split at isIdentifier
  · cases isIdentifier
  split at isIdentifier
  · rename_i newline return_ slash quote digit starts
    refine ⟨starts, ?_⟩
    rw [if_neg newline, if_neg return_, if_neg slash, if_neg quote, if_neg digit, if_pos starts]
  · split at isIdentifier
    · cases isIdentifier
    · cases isIdentifier

theorem isIdentifier_ofText (dialect : Dialect) (first : Char) (rest : List Char)
    (isIdentifier : (ofText dialect first rest).kind = .identifier) :
    dialect.IsIdentifier (String.ofList (ofText dialect first rest).literal) := by
  obtain ⟨starts, same⟩ := ofText_of_identifier isIdentifier
  rw [same] at isIdentifier ⊢
  constructor
  · rw [String.toList_ofList]
    exact ⟨starts, List.all_eq_true.mp List.all_takeWhile⟩
  · cases known : dialect.keyword? (String.ofList (word dialect first rest).literal) with
    | none => rfl
    | some keyword =>
        have kind : (word dialect first rest).kind = .keyword keyword := by
          change dialect.keyword? (String.ofList (first :: _)) = _ at known
          simp only [word, verbatim, known]
        rw [kind] at isIdentifier
        cases isIdentifier

end Lexeme

theorem Reading.isIdentifier_of_mem {reading : Reading} {source : String} {token : Token}
    (member : token ∈ (reading.stream source).tokens) (kind : token.kind = .identifier) :
    reading.dialect.IsIdentifier token.literal := by
  have all : ∀ token ∈ (reading.stream source).tokens,
      token.kind = .identifier -> reading.dialect.IsIdentifier token.literal := ?_
  · exact all token member kind
  refine reading.mem_stream source ?_
  intro scanner same
  unfold Scanner.next
  dsimp only
  split
  · exact .inl rfl
  · rename_i first rest _
    right
    rw [← same]
    exact Lexeme.isIdentifier_ofText scanner.skipBlanks.dialect first rest

theorem Reading.names_stream (reading : Reading) (source : String) :
    ∀ token ∈ (reading.stream source).tokens, token.Names reading.dialect :=
  fun _ member kind => (isIdentifier_of_mem member kind).isName

/-! ## Productions -/

/-- All tokens from the current one on have a property. -/
def Cursor.Holds (known : Token -> Prop) (cursor : Cursor) : Prop :=
  ∀ token ∈ cursor.stream.tokens, known token

theorem Cursor.Holds.advance {known : Token -> Prop} {cursor : Cursor}
    (holds : cursor.Holds known) : cursor.advance.Holds known := by
  intro token member
  rw [advance_tokens] at member
  exact holds token (List.mem_of_mem_tail member)

theorem Cursor.Holds.advanceBy {known : Token -> Prop} {cursor : Cursor}
    (holds : cursor.Holds known) (count : Nat) : (cursor.advanceBy count).Holds known := by
  unfold Cursor.advanceBy
  induction count generalizing cursor with
  | zero => exact holds
  | succ count inductionHypothesis => exact (inductionHypothesis holds).advance

namespace Production

variable {known : Token -> Prop}

/-- Where all tokens have one property, a production answers only what has another, and moves to a
place where again all tokens have the first. -/
def Finds (known : Token -> Prop) (production : Production α) (found : α -> Prop) : Prop :=
  ∀ cursor : Cursor, cursor.Holds known ->
    (production cursor).2.Holds known ∧ ∀ value, (production cursor).1 = some value -> found value

theorem Finds.bind {first : Production α} {next : α -> Production β} {found : β -> Prop}
    {reads : α -> Prop} (begins : first.Finds known reads)
    (goesOn : ∀ read, reads read -> (next read).Finds known found) :
    (first >>= next).Finds known found := by
  intro cursor holds
  change (andThen first next cursor).2.Holds known ∧ _
  have begun := begins cursor holds
  have same : (first >>= next) cursor = andThen first next cursor := rfl
  rw [same]
  unfold andThen
  rcases done : first cursor with ⟨answer, between⟩
  rw [done] at begun
  cases answer with
  | none => exact ⟨begun.1, nofun⟩
  | some read => exact goesOn read (begun.2 read rfl) between begun.1

theorem Finds.pure {value : α} {found : α -> Prop} (has : found value) :
    (Pure.pure value : Production α).Finds known found := by
  intro cursor holds
  refine ⟨holds, ?_⟩
  rintro _ ⟨⟩
  exact has

theorem Finds.mono {production : Production α} {found weaker : α -> Prop}
    (finds : production.Finds known found) (weakens : ∀ value, found value -> weaker value) :
    production.Finds known weaker := fun cursor holds =>
  ⟨(finds cursor holds).1, fun value read => weakens value ((finds cursor holds).2 value read)⟩

theorem Finds.current : Production.current.Finds known fun _ => True :=
  fun _ holds => ⟨holds, fun _ _ => True.intro⟩

theorem Finds.lookahead : Production.lookahead.Finds known fun token =>
    token.kind ≠ .endOfFile -> known token := by
  refine fun cursor holds => ⟨holds, ?_⟩
  rintro _ ⟨⟩ notEnd
  exact holds _ (Cursor.lookahead_mem (Cursor.more_of_kind notEnd))

theorem Finds.advance : Production.advance.Finds known fun _ => True :=
  fun _ holds => ⟨holds.advance, fun _ _ => True.intro⟩

theorem Finds.rejectLookahead {found : α -> Prop} (expected : String) :
    (Production.rejectLookahead expected : Production α).Finds known found :=
  fun _ holds => ⟨holds, nofun⟩

theorem Finds.reject {found : α -> Prop} (complaint : Complaint) :
    (Production.reject complaint : Production α).Finds known found :=
  fun _ holds => ⟨holds, nofun⟩

theorem Finds.rejectCurrent {found : α -> Prop} (expected : String) :
    (Production.rejectCurrent expected : Production α).Finds known found :=
  Finds.current.bind fun _ _ => .reject _

theorem Finds.expect (kind : TokenKind) : (Production.expect kind).Finds known fun _ => True := by
  intro cursor holds
  refine ⟨?_, fun _ _ => True.intro⟩
  unfold Production.expect Cursor.expect
  by_cases here : cursor.lookaheadIs kind = true
  · rw [if_pos here]
    exact holds.advance
  · rw [if_neg here]
    exact holds

theorem Finds.expectEndOfLine : Production.expectEndOfLine.Finds known fun _ => True := by
  intro cursor holds
  refine ⟨?_, fun _ _ => True.intro⟩
  unfold Production.expectEndOfLine Cursor.expectEndOfLine
  by_cases here : cursor.lookahead.kind.endsLine = true
  · rw [if_pos here]
    exact holds.advance
  · rw [if_neg here]
    exact holds

/-- A literal that has to be of a class is that of a token of that class. -/
theorem Finds.expectLiteral {kind : TokenKind} (notEnd : kind ≠ .endOfFile) :
    (Production.expectLiteral kind).Finds known fun literal =>
      ∃ token, known token ∧ token.kind = kind ∧ token.literal = literal := by
  intro cursor holds
  constructor
  · have moves : (Production.expectLiteral kind).Finds known fun _ => True :=
      (Finds.expect kind).bind fun _ _ => Finds.current.bind fun _ _ => .pure True.intro
    exact (moves cursor holds).1
  · intro literal answered
    obtain ⟨isKind, same, -⟩ := Production.expectLiteral_eq_some.mp
      (Prod.ext answered rfl : Production.expectLiteral kind cursor = (some literal, _))
    have more := Cursor.more_of_kind (isKind ▸ notEnd)
    exact ⟨cursor.lookahead, holds _ (Cursor.lookahead_mem more), isKind, same⟩

end Production

/-! ## Line-oriented sources -/

/-- Every item of a source has what the production of its items finds in the source's tokens. -/
theorem mem_readItems {known : Token -> Prop} {item : Production α} {found : α -> Prop}
    (finds : item.Finds known found) (rounds : Nat) (cursor : Cursor) (holds : cursor.Holds known)
    (items : Array (Located α)) (before : ∀ entry ∈ items.toList, found entry.item) :
    ∀ entry ∈ (readItems item rounds cursor items).1.toList, found entry.item := by
  induction rounds generalizing cursor items with
  | zero => exact before
  | succ rounds inductionHypothesis =>
      have wholeLine : Production.Finds known (do
          let value ← item
          Production.expectEndOfLine
          return value) found :=
        finds.bind fun _ has => Production.Finds.expectEndOfLine.bind fun _ _ => .pure has
      have line := wholeLine cursor holds
      unfold readItems
      split
      · exact before
      · split
        · exact inductionHypothesis _ holds.advance _ before
        · dsimp only
          split
          · rename_i value behind done
            rw [done] at line
            apply inductionHypothesis _ line.1
            intro entry member
            rw [Array.toList_push] at member
            rcases List.mem_append.mp member with old | new
            · exact before entry old
            · rw [List.mem_singleton.mp new]
              exact line.2 value rfl
          · rename_i behind done
            rw [done] at line
            exact inductionHypothesis _ (line.1.advanceBy _) _ before

/-- Every item that is read from a source has what its production finds where all tokens of the source
have a property. -/
theorem mem_readLines_of {dialect : Dialect} {item : Production α} {known : Token -> Prop}
    {found : α -> Prop} (finds : item.Finds known found) {source : String}
    (holds : ∀ token ∈ ((lineReading dialect).stream source).tokens, known token)
    {items : List (Located α)} (read : readLines dialect item source = .ok items) :
    ∀ entry ∈ items, found entry.item := by
  unfold readLines at read
  dsimp only at read
  split at read
  · cases read
  · cases read
    apply mem_readItems finds
    · intro token member
      rw [Cursor.ofStream_stream] at member
      exact holds token member
    · exact fun entry member => absurd member List.not_mem_nil

theorem mem_readLines {dialect : Dialect} {item : Production α} {found : α -> Prop}
    (finds : item.Finds (Token.Names dialect) found) {source : String} {items : List (Located α)}
    (read : readLines dialect item source = .ok items) : ∀ entry ∈ items, found entry.item :=
  mem_readLines_of finds ((lineReading dialect).names_stream source) read

/-- Names are identifiers wherever they are read from. -/
theorem mem_readLines_identifier {dialect : Dialect} {item : Production α} {found : α -> Prop}
    (finds : item.Finds (Token.Identifies dialect) found) {source : String} {items : List (Located α)}
    (read : readLines dialect item source = .ok items) : ∀ entry ∈ items, found entry.item :=
  mem_readLines_of finds (fun _ member kind => Reading.isIdentifier_of_mem member kind) read

end HackToolchain
