import HackToolchain.Proofs.Token.Coverage
import HackToolchain.Proofs.Token.Recovery

namespace HackToolchain

/-!
# Rows of a source

A source that is read line by line is cut into pieces like any other.  Its rows are the pieces between
newlines, comments left out, and the tokens of the rows that are not empty are the lines that are read.
So what is said of the tokens of a line can be told from the text on its row.
-/

theorem TokenLine.mem_of_mem_cut {atEnd : Token} {tokens : List Token} :
    ∀ line ∈ cut atEnd tokens, ∀ token ∈ line.tokens, token ∈ tokens := by
  induction tokens with
  | nil =>
      intro line member
      cases List.mem_singleton.mp member
      exact nofun
  | cons first rest inductionHypothesis =>
      intro line member token inLine
      by_cases isNewline : first.kind = .newline
      · rw [cut, if_pos isNewline] at member
        rcases List.mem_cons.mp member with rfl | member
        · cases inLine
        · exact List.mem_cons_of_mem first (inductionHypothesis line member token inLine)
      · rw [cut, if_neg isNewline] at member
        rcases lines : cut atEnd rest with _ | ⟨head, tail⟩
        · rw [lines] at member
          cases member
        · rw [lines] at member inductionHypothesis
          rcases List.mem_cons.mp member with rfl | member
          · rcases List.mem_cons.mp inLine with rfl | inLine
            · exact List.mem_cons_self
            · exact List.mem_cons_of_mem first
                (inductionHypothesis head List.mem_cons_self token inLine)
          · exact List.mem_cons_of_mem first
              (inductionHypothesis line (List.mem_cons_of_mem head member) token inLine)

theorem mem_of_mem_sourceLines {dialect : Dialect} {source : String} {line : TokenLine}
    (member : line ∈ sourceLines dialect source) {token : Token} (inLine : token ∈ line.tokens) :
    token ∈ ((lineReading dialect).stream source).tokens :=
  TokenLine.mem_of_mem_cut line (List.mem_filter.mp member).1 token inLine

namespace Piece

/-- The pieces of a source line by line, without comments and newlines. -/
def rows : List Piece -> List (List Piece)
  | [] => [[]]
  | piece :: rest =>
    match piece.token.kind with
    | .newline => [] :: rows rest
    | .comment _ => rows rest
    | _ => (rows rest).modifyHead (piece :: ·)

/-- The rows that hold any pieces. -/
def filledRows (pieces : List Piece) : List (List Piece) := (rows pieces).filter (!·.isEmpty)

/-- What stands on a row, without blanks. -/
def rowText (row : List Piece) : List Char := row.flatMap spelling

/-- The lines of tokens hold the tokens of the rows. -/
theorem cut_rows (dialect : Dialect) (atEnd : Token) (pieces : List Piece) :
    (TokenLine.cut atEnd ((pieces.map Piece.token).filter
      fun token => !(lineReading dialect).hides token.kind)).map TokenLine.tokens =
      (rows pieces).map (List.map Piece.token) := by
  induction pieces with
  | nil => rfl
  | cons piece rest inductionHypothesis =>
      have modified {lines : List TokenLine} {others : List (List Piece)}
          (same : lines.map TokenLine.tokens = others.map (List.map Piece.token)) :
          (lines.modifyHead (TokenLine.cons piece.token)).map TokenLine.tokens =
            (others.modifyHead (piece :: ·)).map (List.map Piece.token) := by
        rcases lines with _ | ⟨line, lines⟩
        · cases List.map_eq_nil_iff.mp same.symm
          rfl
        · rcases others with _ | ⟨row, others⟩
          · cases same
          · obtain ⟨head, tail⟩ := List.cons.inj same
            exact congrArg₂ List.cons (congrArg (piece.token :: ·) head) tail
      rw [List.map_cons, rows]
      split
      · rename_i isNewline
        have shown : (!(lineReading dialect).hides piece.token.kind) = true := by
          rw [isNewline]
          rfl
        rw [List.filter_cons, if_pos shown, TokenLine.cut, if_pos isNewline, List.map_cons,
          inductionHypothesis]
        rfl
      · rename_i isComment
        have hidden : ¬(!(lineReading dialect).hides piece.token.kind) = true := by
          rw [isComment]
          exact Bool.false_ne_true
        rw [List.filter_cons, if_neg hidden, inductionHypothesis]
      · rename_i notNewline notComment
        have shown : (!(lineReading dialect).hides piece.token.kind) = true := by
          unfold Reading.hides
          split
          · rename_i kind isComment
            exact absurd isComment (notComment kind)
          · rfl
          · rfl
        rw [List.filter_cons, if_pos shown, TokenLine.cut, if_neg notNewline]
        exact modified inductionHypothesis

/-- The filled lines of a source hold the tokens of its filled rows. -/
theorem sourceLines_rows {dialect : Dialect} {source : String} {pieces : List Piece}
    (tokens : (Scanner.ofSource dialect Scanner.defaultTabWidth source).stream.tokens =
      pieces.map Piece.token) :
    (sourceLines dialect source).map TokenLine.tokens =
      (filledRows pieces).map (List.map Piece.token) := by
  have shown : ((lineReading dialect).stream source).tokens = (pieces.map Piece.token).filter
      fun token => !(lineReading dialect).hides token.kind := congrArg (List.filter _) tokens
  have filled (lines : List TokenLine) : (lines.filter TokenLine.isFilled).map TokenLine.tokens =
      (lines.map TokenLine.tokens).filter (!·.isEmpty) := by
    rw [List.filter_map]
    rfl
  have nonempty (rows : List (List Piece)) : (rows.filter (!·.isEmpty)).map (List.map Piece.token) =
      (rows.map (List.map Piece.token)).filter (!·.isEmpty) := by
    rw [List.filter_map]
    congr 2
    funext row
    cases row with
    | _ => rfl
  rw [sourceLines, TokenLine.filled, shown, filled, cut_rows, ← nonempty, filledRows]

/-- A piece that is kept without its quotes, and has no others, is kept as it stands otherwise. -/
theorem filter_spelling {piece : Piece} (noQuote : '"' ∉ piece.token.literal.toList)
    (inLine : piece.token.kind.endsLine = false) :
    piece.spelling.filter (· ≠ '"') = piece.token.literal.toList := by
  have kept {text : List Char} (noQuote : '"' ∉ text) : text.filter (· ≠ '"') = text := by
    rw [List.filter_eq_self]
    exact fun character member => decide_eq_true fun same => noQuote (same ▸ member)
  have spells := piece.spells
  change Spells _ _ piece.spelling at spells
  generalize piece.token.kind = kind at spells inLine
  generalize piece.token.literal.toList = literal at spells noQuote ⊢
  generalize piece.spelling = spelling at spells ⊢
  cases spells with
  | verbatim => exact kept noQuote
  | string =>
      rw [List.filter_cons_of_neg (by decide), List.filter_append, kept noQuote,
        List.filter_cons_of_neg (by decide), List.filter_nil, List.append_nil]
  | openString => rw [List.filter_cons_of_neg (by decide), kept noQuote]
  | lineEnd => cases inLine

/-- A piece that is neither a string nor unfinished is kept as it stands. -/
theorem spelling_eq_literal {piece : Piece} (inLine : piece.token.kind.endsLine = false)
    (notString : piece.token.kind ≠ .string) (notIllegal : piece.token.kind ≠ .illegal) :
    piece.spelling = piece.token.literal.toList := by
  have spells := piece.spells
  change Spells _ _ piece.spelling at spells
  generalize piece.token.kind = kind at spells inLine notString notIllegal
  generalize piece.token.literal.toList = literal at spells ⊢
  generalize piece.spelling = spelling at spells ⊢
  cases spells with
  | verbatim => rfl
  | string => exact absurd rfl notString
  | openString => exact absurd rfl notIllegal
  | lineEnd => cases inLine

end Piece

end HackToolchain
