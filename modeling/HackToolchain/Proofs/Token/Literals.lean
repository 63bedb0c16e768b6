import HackToolchain.Proofs.Token.Coverage
import HackToolchain.Proofs.Token.Names

namespace HackToolchain

/-!
# Literals of tokens

What the literal of a token can be is told by the token's class.  A name, a number or a string does not
go beyond its line.  Only what could not be made a token of may do so: a block comment that is never
closed takes up the rest of the source, line ends and all.
-/

namespace Dialect

/-- What the scanner of a dialect may keep for a token of a class. -/
def Keeps (dialect : Dialect) : TokenKind -> List Char -> Prop
  | .integer, literal => literal ≠ [] ∧ ∀ character ∈ literal, character.isDigit = true
  | .identifier, literal | .keyword _, literal => dialect.IsWord literal
  | .mark mark, literal => literal = [mark.character]
  | .string, literal => ∀ character ∈ literal, Lexeme.breaksLine character = false
  | .unknown, literal => ∃ character, literal = [character] ∧ Lexeme.breaksLine character = false
  | .illegal, literal => (∀ character ∈ literal, Lexeme.breaksLine character = false) ∨
      literal = ['\r'] ∨ ∃ body, literal = '/' :: '*' :: body
  | .newline, literal => literal = ['\n']
  | .comment _, literal => ∃ body, literal = '/' :: body
  | .endOfFile, literal => literal = []

end Dialect

namespace Lexeme

/-- The lexeme keeps what its class says. -/
def IsKept (dialect : Dialect) (lexeme : Lexeme) : Prop := dialect.Keeps lexeme.kind lexeme.literal

theorem isKept_carriageReturn (dialect : Dialect) (rest : List Char) :
    (carriageReturn rest).IsKept dialect := by
  unfold carriageReturn
  split
  · exact rfl
  · exact .inr (.inl rfl)

theorem isKept_slash (dialect : Dialect) (rest : List Char) : (slash rest).IsKept dialect := by
  unfold slash
  split
  · rename_i body
    refine ⟨('/' :: body).takeWhile fun character => !breaksLine character, ?_⟩
    unfold run verbatim
    rw [List.takeWhile_cons_of_pos (by decide)]
  · unfold blockComment
    split
    · rename_i found
      obtain ⟨taken, rfl, -⟩ := splitComment_lossless found
      exact ⟨_, rfl⟩
    · exact .inr (.inr ⟨_, rfl⟩)
  · exact rfl

theorem isKept_string (dialect : Dialect) (text : List Char) : (string text).IsKept dialect := by
  have inside : ∀ character ∈ text.takeWhile (fun character => character != '"' && !breaksLine character),
      breaksLine character = false := by
    intro character member
    have passes := List.mem_takeWhile_imp member
    rw [Bool.and_eq_true, Bool.not_eq_true'] at passes
    exact passes.2
  unfold string
  dsimp only
  split
  · exact inside
  · exact .inl inside

theorem isKept_word {dialect : Dialect} {first : Char} (text : List Char)
    (starts : dialect.startsName first = true) : (word dialect first text).IsKept dialect := by
  have isWord : dialect.IsWord (first :: text.takeWhile dialect.continuesName) :=
    ⟨starts, List.all_eq_true.mp List.all_takeWhile⟩
  unfold word IsKept
  dsimp only
  split
  · exact isWord
  · exact isWord

/-- Every lexeme keeps what its class says. -/
theorem isKept_ofText (dialect : Dialect) (first : Char) (rest : List Char) :
    (ofText dialect first rest).IsKept dialect := by
  unfold ofText
  split
  · exact rfl
  rename_i newline
  split
  · exact isKept_carriageReturn dialect rest
  rename_i return_
  split
  · exact isKept_slash dialect rest
  split
  · exact isKept_string dialect rest
  split
  · rename_i digit
    constructor
    · exact List.ne_nil_of_mem (List.takeWhile_cons_of_pos digit ▸ List.mem_cons_self)
    · exact List.all_eq_true.mp List.all_takeWhile
  split
  · rename_i starts
    exact isKept_word rest starts
  split
  · rename_i mark found
    have same := List.find?_some found
    exact congrArg (fun character => [character]) (beq_iff_eq.mp same).symm
  · refine ⟨first, rfl, ?_⟩
    simp [breaksLine, newline, return_]

end Lexeme

/-- Every token of a source keeps what its class says. -/
theorem Reading.keeps_of_mem {reading : Reading} {source : String} {token : Token}
    (member : token ∈ (reading.stream source).tokens) :
    reading.dialect.Keeps token.kind token.literal.toList := by
  have all : ∀ token ∈ (reading.stream source).tokens,
      reading.dialect.Keeps token.kind token.literal.toList := ?_
  · exact all token member
  refine reading.mem_stream source ?_
  intro scanner same
  unfold Scanner.next
  dsimp only
  split
  · exact .inl rfl
  · rename_i first rest _
    right
    rw [← same, String.toList_ofList]
    exact Lexeme.isKept_ofText scanner.skipBlanks.dialect first rest

end HackToolchain
