import HackToolchain.Token.Stream

namespace HackToolchain

/-!
# How tokens are spelled

The literal of a keyword or of a mark is told by the class of the token.  So a token of a stream is
known, up to its position, by its class and by the literal of a name, a number or a string.

A stream holds no end-of-file token, because the end of a source is a place.
-/

namespace Token

/-- A token without its position. -/
def unplaced (token : Token) : Token := { token with position := .start }

/-- The token of a keyword. -/
def ofKeyword (word : Keyword) : Token := ⟨.start, .keyword word, word.text⟩

/-- The token of a mark. -/
def ofMark (mark : Mark) : Token := ⟨.start, .mark mark, String.ofList [mark.character]⟩

/-- The token of a name. -/
def ofName (name : String) : Token := ⟨.start, .identifier, name⟩

/-- What the class of a token says of its literal. -/
def SpellsClass : TokenKind -> String -> Prop
  | .keyword word, literal => literal = word.text
  | .mark mark, literal => literal = String.ofList [mark.character]
  | _, _ => True

/-- A token of a stream. -/
structure Proper (token : Token) : Prop where
  spells : SpellsClass token.kind token.literal
  notEnd : token.kind ≠ .endOfFile

/-- A token as spellings have it: no anomaly, and without a position. -/
structure Plain (token : Token) : Prop where
  classified : token.kind.isAnomaly = false
  position : token.unplaced = token

theorem plain_ofKeyword (word : Keyword) : (ofKeyword word).Plain := ⟨rfl, rfl⟩

theorem plain_ofMark (mark : Mark) : (ofMark mark).Plain := ⟨rfl, rfl⟩

theorem plain_ofName (name : String) : (ofName name).Plain := ⟨rfl, rfl⟩

theorem proper_ofKeyword (word : Keyword) : (ofKeyword word).Proper := ⟨rfl, nofun⟩

theorem proper_ofMark (mark : Mark) : (ofMark mark).Proper := ⟨rfl, nofun⟩

theorem proper_ofName (name : String) : (ofName name).Proper := ⟨True.intro, nofun⟩

theorem unplaced_eq_ofKeyword {token : Token} {word : Keyword} (proper : token.Proper)
    (kind : token.kind = .keyword word) : token.unplaced = ofKeyword word := by
  have spells := proper.spells
  rcases token with ⟨position, _, literal⟩
  cases kind
  exact congrArg (Token.mk Position.start _) spells

theorem unplaced_eq_ofMark {token : Token} {mark : Mark} (proper : token.Proper)
    (kind : token.kind = .mark mark) : token.unplaced = ofMark mark := by
  have spells := proper.spells
  rcases token with ⟨position, _, literal⟩
  cases kind
  exact congrArg (Token.mk Position.start _) spells

theorem unplaced_eq_ofName {token : Token} (kind : token.kind = .identifier) :
    token.unplaced = ofName token.literal := by
  rcases token with ⟨position, _, literal⟩
  cases kind
  rfl

/-- The value of an integer constant is what its digits denote, if that is in range. -/
theorem value?_eq_some {token : Token} {value : UInt16} :
    token.value? = some value ↔ token.kind = .integer ∧
      decimalValue token.literal.toList = value.toNat ∧ value.toNat ≤ maxInteger := by
  unfold Token.value?
  dsimp only
  constructor
  · intro found
    split at found
    · rename_i known
      cases found
      have small : decimalValue token.literal.toList < UInt16.size :=
        Nat.lt_of_le_of_lt known.2 (by decide)
      have same := UInt16.toNat_ofNat_of_lt' small
      exact ⟨known.1, same.symm, same.symm ▸ known.2⟩
    · cases found
  · rintro ⟨kind, same, small⟩
    rw [if_pos ⟨kind, same ▸ small⟩, same, UInt16.ofNat_toNat]

/-- A token says the same as one that is written down: it is of the same class, and a name is the same
name and a number has the same value, however many zeros it starts with. -/
structure StandsFor (token written : Token) : Prop where
  kind : token.kind = written.kind
  name : written.kind = .identifier -> token.literal = written.literal
  value : written.kind = .integer ->
    decimalValue token.literal.toList = decimalValue written.literal.toList

theorem standsFor_of_unplaced {token written : Token} (same : token.unplaced = written) :
    token.StandsFor written := by
  subst same
  exact ⟨rfl, fun _ => rfl, fun _ => rfl⟩

theorem standsFor_ofKeyword {token : Token} {word : Keyword} :
    token.StandsFor (ofKeyword word) ↔ token.kind = .keyword word :=
  ⟨StandsFor.kind, fun kind => ⟨kind, nofun, nofun⟩⟩

theorem standsFor_ofMark {token : Token} {mark : Mark} :
    token.StandsFor (ofMark mark) ↔ token.kind = .mark mark :=
  ⟨StandsFor.kind, fun kind => ⟨kind, nofun, nofun⟩⟩

theorem standsFor_ofName {token : Token} {name : String} :
    token.StandsFor (ofName name) ↔ token.kind = .identifier ∧ token.literal = name :=
  ⟨fun stands => ⟨stands.kind, stands.name rfl⟩, fun same => ⟨same.1, fun _ => same.2, nofun⟩⟩

end Token

/-! ## Lexemes -/

namespace Lexeme

/-- What a lexeme is made of is a token of a stream. -/
def Proper (lexeme : Lexeme) : Prop :=
  Token.SpellsClass lexeme.kind (String.ofList lexeme.literal) ∧ lexeme.kind ≠ .endOfFile

theorem proper_carriageReturn (rest : List Char) : (carriageReturn rest).Proper := by
  unfold carriageReturn
  split
  · exact ⟨True.intro, nofun⟩
  · exact ⟨True.intro, nofun⟩

theorem proper_slash (rest : List Char) : (slash rest).Proper := by
  unfold slash
  split
  · exact ⟨True.intro, nofun⟩
  · unfold blockComment
    split
    · exact ⟨True.intro, nofun⟩
    · exact ⟨True.intro, nofun⟩
  · exact ⟨rfl, nofun⟩

theorem proper_string (text : List Char) : (string text).Proper := by
  unfold string
  dsimp only
  split
  · exact ⟨True.intro, nofun⟩
  · exact ⟨True.intro, nofun⟩

theorem proper_word (dialect : Dialect) (first : Char) (text : List Char) :
    (word dialect first text).Proper := by
  unfold word
  dsimp only
  split
  · rename_i keyword found
    have same := List.find?_some found
    exact ⟨(beq_iff_eq.mp same).symm, nofun⟩
  · exact ⟨True.intro, nofun⟩

theorem proper_ofText (dialect : Dialect) (first : Char) (rest : List Char) :
    (ofText dialect first rest).Proper := by
  unfold ofText
  split
  · exact ⟨True.intro, nofun⟩
  split
  · exact proper_carriageReturn rest
  split
  · exact proper_slash rest
  split
  · exact proper_string rest
  split
  · exact ⟨True.intro, nofun⟩
  split
  · exact proper_word dialect first rest
  split
  · rename_i mark found
    have same := List.find?_some found
    have character : mark.character = first := beq_iff_eq.mp same
    exact ⟨congrArg (fun character => String.ofList [character]) character.symm, nofun⟩
  · exact ⟨True.intro, nofun⟩

end Lexeme

/-! ## Streams -/

theorem Scanner.proper_next (scanner : Scanner) :
    scanner.next.1.kind = .endOfFile ∨ scanner.next.1.Proper := by
  unfold next
  dsimp only
  split
  · exact .inl rfl
  · rename_i first rest _
    have proper := Lexeme.proper_ofText scanner.skipBlanks.dialect first rest
    exact .inr ⟨proper.1, proper.2⟩

theorem Scanner.dialect_next (scanner : Scanner) : scanner.next.2.dialect = scanner.dialect := by
  unfold next
  dsimp only
  split
  · rfl
  · rfl

/-- What all tokens have that scanners of a dialect answer in front of the end, all tokens have that
one of these scanners collects. -/
theorem Scanner.mem_collect {holds : Token -> Prop} {dialect : Dialect}
    (answered : ∀ scanner : Scanner, scanner.dialect = dialect ->
      scanner.next.1.kind = .endOfFile ∨ holds scanner.next.1)
    (steps : Nat) (scanner : Scanner) (same : scanner.dialect = dialect) (tokens : Array Token)
    (before : ∀ token ∈ tokens.toList, holds token) :
    ∀ token ∈ (collect steps scanner tokens).tokens, holds token := by
  induction steps generalizing scanner tokens with
  | zero => exact before
  | succ steps inductionHypothesis =>
      have answer := answered scanner same
      have next := scanner.dialect_next
      unfold collect
      rcases read : scanner.next with ⟨token, behind⟩
      rw [read] at answer next
      dsimp only
      split
      · exact before
      · rename_i goesOn
        apply inductionHypothesis behind (next.trans same)
        intro other member
        rw [Array.toList_push] at member
        rcases List.mem_append.mp member with old | new
        · exact before other old
        · rw [List.mem_singleton.mp new]
          exact answer.resolve_left goesOn

/-- What all tokens have that scanners of a dialect answer in front of the end, all tokens of a source
have. -/
theorem Reading.mem_stream {holds : Token -> Prop} (reading : Reading) (source : String)
    (answered : ∀ scanner : Scanner, scanner.dialect = reading.dialect ->
      scanner.next.1.kind = .endOfFile ∨ holds scanner.next.1) :
    ∀ token ∈ (reading.stream source).tokens, holds token := by
  intro token member
  apply Scanner.mem_collect answered _ _ rfl #[] _ token (List.mem_filter.mp member).1
  intro other none
  exact absurd none List.not_mem_nil

theorem Reading.proper_stream (reading : Reading) (source : String) :
    ∀ token ∈ (reading.stream source).tokens, token.Proper :=
  reading.mem_stream source fun scanner _ => scanner.proper_next

end HackToolchain
