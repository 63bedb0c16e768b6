import HackToolchain.Proofs.Token.Coverage

namespace HackToolchain

/-!
# Texts that are cut short

Where a text is cut short, the tokens in front of the cut are the same as before.  Only the piece in
which the cut is can become something else: a part of a name may be a keyword, a string or a comment
is left open, and the first half of a comment's opening is a slash.  Whatever it becomes, it is a single
token that reaches up to the cut, and it does not become a closing brace.
-/

/-! ## Lexemes -/

/-- What becomes of a lexeme if the text is cut short by its last characters.  Either the lexeme ends in
front of the cut and is the same, or it takes up all that is left. -/
inductive Lexeme.Shortens (more : List Char) (whole part : Lexeme) : Prop where
  | kept (rest : List Char) (left : whole.rest = rest ++ more) (same : part = { whole with rest := rest })
  | torn (nothing : part.rest = []) (noBrace : part.kind ≠ .mark .rightBrace)

namespace Lexeme

variable (text more : List Char)

theorem shortens_verbatim (kind : TokenKind) (spelling : List Char) :
    Shortens more (verbatim kind spelling (text ++ more)) (verbatim kind spelling text) :=
  .kept text rfl rfl

/-- Either all that is left passes a test, or the cut does not matter to where the test fails. -/
theorem dropWhile_of_shortened (test : Char -> Bool) : text.dropWhile test = [] ∨
    ∃ next rest, text.dropWhile test = next :: rest ∧
      (text ++ more).takeWhile test = text.takeWhile test ∧
      (text ++ more).dropWhile test = next :: rest ++ more := by
  rcases behind : text.dropWhile test with _ | ⟨next, rest⟩
  · exact .inl rfl
  · refine .inr ⟨next, rest, rfl, ?_, ?_⟩
    · have some : (text.takeWhile test).length ≠ text.length := by
        intro same
        have split : text.takeWhile test ++ text.dropWhile test = text :=
          List.takeWhile_append_dropWhile
        have lengths := congrArg List.length split
        rw [List.length_append, behind, List.length_cons] at lengths
        omega
      rw [List.takeWhile_append, if_neg some]
    · rw [List.dropWhile_append, behind]
      rfl

theorem shortens_run {kind : TokenKind} (noBrace : kind ≠ .mark .rightBrace) (test : Char -> Bool) :
    Shortens more (run kind test (text ++ more)) (run kind test text) := by
  unfold run verbatim
  rcases dropWhile_of_shortened text more test with nothing | ⟨next, rest, left, front, behind⟩
  · exact .torn nothing noBrace
  · rw [front, behind, left]
    exact .kept (next :: rest) rfl rfl

theorem shortens_word (dialect : Dialect) (first : Char) :
    Shortens more (word dialect first (text ++ more)) (word dialect first text) := by
  unfold word verbatim
  rcases dropWhile_of_shortened text more dialect.continuesName with
    nothing | ⟨next, rest, left, front, behind⟩
  · refine .torn nothing ?_
    dsimp only
    split <;> exact nofun
  · rw [front, behind, left]
    exact .kept (next :: rest) rfl rfl

theorem shortens_string : Shortens more (string (text ++ more)) (string text) := by
  unfold string
  dsimp only
  rcases dropWhile_of_shortened text more (fun character => character != '"' && !breaksLine character)
    with nothing | ⟨next, rest, left, front, behind⟩
  · rw [nothing]
    exact .torn rfl nofun
  · rw [front, behind, left]
    by_cases quote : next = '"'
    · subst quote
      exact .kept rest rfl rfl
    · split
      · rename_i same
        exact absurd (List.cons.inj same).1 quote
      · split
        · rename_i same
          exact absurd (List.cons.inj same).1 quote
        · exact .kept (next :: rest) rfl rfl

theorem shortens_carriageReturn :
    Shortens more (carriageReturn (text ++ more)) (carriageReturn text) := by
  rcases text with _ | ⟨first, rest⟩
  · exact .torn rfl nofun
  · by_cases newline : first = '\n'
    · subst newline
      exact .kept rest rfl rfl
    · have whole (behind : List Char) :
          carriageReturn (first :: behind) = verbatim .illegal ['\r'] (first :: behind) := by
        unfold carriageReturn
        split
        · rename_i same
          exact absurd (List.cons.inj same).1 newline
        · rfl
      rw [List.cons_append, whole, whole]
      exact shortens_verbatim (first :: rest) more _ _

/-- A comment that ends in front of the cut ends there without the cut. -/
theorem splitComment_append {seen text spelling rest : List Char} (more : List Char)
    (found : splitComment seen text = some (spelling, rest)) :
    splitComment seen (text ++ more) = some (spelling, rest ++ more) := by
  fun_induction splitComment seen text with
  | case1 seen behind =>
      cases found
      rfl
  | case2 seen character behind notEnd inductionHypothesis =>
      -- A last star would go together with a slash behind the cut, but it is not the end of a comment.
      rcases behind with _ | ⟨second, others⟩
      · cases found
      · rw [List.cons_append, splitComment]
        · exact inductionHypothesis found
        · rintro behind rfl same
          exact notEnd others rfl (congrArg (· :: others) (List.cons.inj same).1)
  | case3 => cases found

/-- The kind of a comment is told by the first two characters of its text. -/
theorem blockKind_cons_cons (first second : Char) (rest : List Char) :
    blockKind (first :: second :: rest) = blockKind [first, second] := by
  by_cases star : first = '*'
  · by_cases slash : second = '/'
    · subst star slash
      rfl
    · subst star
      unfold blockKind
      split <;> split <;> simp_all
  · unfold blockKind
    split <;> split <;> simp_all

theorem blockKind_append {text spelling rest : List Char} (more : List Char)
    (found : splitComment ['*', '/'] text = some (spelling, rest)) :
    blockKind (text ++ more) = blockKind text := by
  rcases text with _ | ⟨first, _ | ⟨second, others⟩⟩
  · cases found
  · simp [splitComment] at found
  · rw [List.cons_append, List.cons_append, blockKind_cons_cons first second (others ++ more),
      blockKind_cons_cons first second others]

theorem shortens_blockComment :
    Shortens more (blockComment (text ++ more)) (blockComment text) := by
  cases found : splitComment ['*', '/'] text with
  | none =>
      have open_ : blockComment text = verbatim .illegal ('/' :: '*' :: text) [] := by
        unfold blockComment
        rw [found]
      rw [open_]
      exact .torn rfl nofun
  | some cut =>
      obtain ⟨spelling, rest⟩ := cut
      have whole := splitComment_append more found
      unfold blockComment
      rw [found, whole, blockKind_append more found]
      exact shortens_verbatim rest more _ _

theorem shortens_slash : Shortens more (slash (text ++ more)) (slash text) := by
  rcases text with _ | ⟨first, rest⟩
  · exact .torn rfl nofun
  · by_cases line : first = '/'
    · subst line
      exact shortens_run ('/' :: '/' :: rest) more (by decide) _
    · by_cases block : first = '*'
      · subst block
        exact shortens_blockComment rest more
      · have whole (behind : List Char) :
            slash (first :: behind) = verbatim (.mark .slash) ['/'] (first :: behind) := by
          unfold slash
          split
          · rename_i same
            exact absurd (List.cons.inj same).1 line
          · rename_i same
            exact absurd (List.cons.inj same).1 block
          · rfl
        rw [List.cons_append, whole, whole]
        exact shortens_verbatim (first :: rest) more _ _

/-- Whatever a lexeme starts with, cutting the text short keeps it or tears it. -/
theorem shortens_ofText (dialect : Dialect) (first : Char) :
    Shortens more (ofText dialect first (text ++ more)) (ofText dialect first text) := by
  unfold ofText
  split
  · exact shortens_verbatim text more _ _
  split
  · exact shortens_carriageReturn text more
  split
  · exact shortens_slash text more
  split
  · exact shortens_string text more
  split
  · exact shortens_run (first :: text) more (by decide) _
  split
  · exact shortens_word text more dialect first
  split
  · exact shortens_verbatim text more _ _
  · exact shortens_verbatim text more _ _

end Lexeme

/-! ## Scanners -/

namespace Piece

theorem texts_append_cons (before after : List Piece) (piece : Piece) (blanks : List Char) :
    texts (before ++ piece :: after) ++ blanks =
      texts before ++ piece.blanks ++ (piece.spelling ++ (texts after ++ blanks)) := by
  simp [texts, text]

/-- A text that starts another one either ends among the blanks in front of a piece, or goes on behind
the first character of the piece. -/
theorem blank_or_eq_of_prefix {piece : Piece} {front behind : List Char}
    (isPrefix : front <+: piece.text ++ behind) :
    (∀ character ∈ front, Scanner.isBlank character = true) ∨
      ∃ text, front = piece.blanks ++ piece.first :: text ∧ text <+: piece.rest ++ behind := by
  rw [text, List.append_assoc] at isPrefix
  rcases List.prefix_or_prefix_of_prefix isPrefix (List.prefix_append ..) with short | ⟨rest, rfl⟩
  · exact .inl fun character member => piece.blank character (short.subset member)
  · rcases rest with _ | ⟨first, text⟩
    · exact .inl fun character member => piece.blank character (by simpa using member)
    · obtain ⟨rfl, inPiece⟩ :=
        List.cons_prefix_cons.mp ((List.prefix_append_right_inj _).mp isPrefix)
      exact .inr ⟨text, rfl, inPiece⟩

end Piece

namespace Scanner

/-- What a scanner answers that has a torn piece in front of it, and blanks before that. -/
theorem tokens_of_torn {scanner : Scanner} {blanks text : List Char} {first : Char}
    (blank : ∀ character ∈ blanks, isBlank character = true) (notBlank : isBlank first = false)
    (starts : scanner.rest = blanks ++ first :: text)
    (nothing : (Lexeme.ofText scanner.dialect first text).rest = []) :
    ∃ token, token.kind = (Lexeme.ofText scanner.dialect first text).kind ∧
      scanner.stream.tokens = [token] := by
  have next := next_of_blanks blank notBlank starts rfl
  have goesOn : scanner.next.1.kind ≠ .endOfFile := by
    rw [next]
    exact (Lexeme.proper_ofText scanner.dialect first text).2
  refine ⟨scanner.next.1, by rw [next], ?_⟩
  rw [stream_of_next goesOn, next]
  dsimp only
  rw [stream_nil _ nothing]

/-- A piece with text behind its first character is cut off as before if the cut is behind it, and
otherwise what is left of it is one token. -/
theorem CutsOff.shortened {scanner : Scanner} {piece : Piece} {rest text more : List Char}
    (cutsOff : scanner.CutsOff piece rest) (split : text ++ more = piece.rest ++ rest) :
    (∃ others, text = piece.rest ++ others ∧
        (scanner.past [] (piece.text ++ others)).CutsOff piece others) ∨
      ∃ token, token.kind ≠ .mark .rightBrace ∧
        (scanner.past [] (piece.blanks ++ piece.first :: text)).stream.tokens = [token] := by
  have shortens := Lexeme.shortens_ofText text more scanner.dialect piece.first
  rw [split, cutsOff.cut] at shortens
  cases shortens with
  | kept others left same =>
      change rest = others ++ more at left
      have whole : text = piece.rest ++ others := by
        rw [left, ← List.append_assoc] at split
        exact List.append_cancel_right split
      subst whole
      exact .inl ⟨others, rfl, rfl, same, cutsOff.placed⟩
  | torn nothing noBrace =>
      have starts : (scanner.past [] (piece.blanks ++ piece.first :: text)).rest =
          piece.blanks ++ piece.first :: text := rfl
      obtain ⟨token, kind, tokens⟩ := tokens_of_torn piece.blank piece.notBlank starts nothing
      exact .inr ⟨token, kind ▸ noBrace, tokens⟩

/-- The tokens in front of the cut are kept, and what is left of the piece with the cut in it is at most
one token, which is no closing brace. -/
theorem CutInto.shortened {scanner : Scanner} {before after : List Piece} {closing : Piece}
    {blanks front : List Char} (cutInto : scanner.CutInto blanks (before ++ closing :: after))
    (isPrefix : front <+: Piece.texts before ++ closing.blanks) :
    ∃ (kept : List Piece) (torn : Option Token), kept <+: before ∧
      (∀ token ∈ torn, token.kind ≠ .mark .rightBrace) ∧
      (scanner.past [] front).stream.tokens = kept.map Piece.token ++ torn.toList := by
  have ofBlank {scanner : Scanner} {before : List Piece} {front : List Char}
      (blank : ∀ character ∈ front, isBlank character = true) :
      ∃ (kept : List Piece) (torn : Option Token), kept <+: before ∧
        (∀ token ∈ torn, token.kind ≠ .mark .rightBrace) ∧
        (scanner.past [] front).stream.tokens = kept.map Piece.token ++ torn.toList := by
    have stream : (scanner.past [] front).stream = _ := stream_of_blank blank
    exact ⟨[], none, List.nil_prefix, nofun, congrArg TokenStream.tokens stream⟩
  induction before generalizing scanner front with
  | nil => exact ofBlank fun character member => closing.blank character (isPrefix.subset member)
  | cons piece before inductionHypothesis =>
      rcases cutInto with _ | ⟨cutsOff, behind⟩
      rename_i rest
      have inFront : front <+: piece.text ++ (Piece.texts before ++ closing.blanks) := by
        rw [← List.append_assoc]
        exact isPrefix
      rcases Piece.blank_or_eq_of_prefix inFront with blank | ⟨text, rfl, inPiece⟩
      · exact ofBlank blank
      · obtain ⟨more, split⟩ : ∃ more, text ++ more = piece.rest ++ rest := by
          have left : rest = Piece.texts (before ++ closing :: after) ++ blanks := behind.covers.text
          rw [left, Piece.texts_append_cons]
          obtain ⟨more, split⟩ := inPiece
          exact ⟨more ++ (closing.spelling ++ (Piece.texts after ++ blanks)), by
            rw [← List.append_assoc, split, List.append_assoc]⟩
        rcases cutsOff.shortened split with ⟨others, rfl, shorter⟩ | ⟨token, noBrace, tokens⟩
        · have inRest : others <+: Piece.texts before ++ closing.blanks :=
            (List.prefix_append_right_inj _).mp inPiece
          obtain ⟨kept, torn, keeps, noBrace, tokens⟩ := inductionHypothesis behind inRest
          refine ⟨piece :: kept, torn, List.cons_prefix_cons.mpr ⟨rfl, keeps⟩, noBrace, ?_⟩
          have front : piece.blanks ++ piece.first :: (piece.rest ++ others) = piece.text ++ others :=
            (List.append_assoc piece.blanks piece.spelling others).symm
          rw [past_past, List.append_nil] at tokens
          rw [front, shorter.stream, past_past, List.nil_append]
          exact congrArg (piece.token :: ·) tokens
        · refine ⟨[], some token, List.nil_prefix, ?_, tokens⟩
          rintro _ ⟨⟩
          exact noBrace

end Scanner
end HackToolchain
