import HackToolchain.Proofs.Token.Literals
import HackToolchain.Proofs.Token.Truncation

namespace HackToolchain

/-!
# Line ends of two characters

A line may end with a line feed alone or with a carriage return in front of it.  Whichever it is, the
tokens of a source are of the same classes and stand at the same places: a carriage return in front of
a line feed stops everything that the line feed stops, and is counted on a line that the line feed
leaves.  Tokens also keep the same, except for what goes on beyond its line: comments, and a block
comment that is never closed.
-/

/-- A text with a carriage return in front of each of its line feeds. -/
def withReturns (text : List Char) : List Char :=
  text.flatMap fun character => if character = '\n' then ['\r', '\n'] else [character]

theorem withReturns_newline (rest : List Char) :
    withReturns ('\n' :: rest) = '\r' :: '\n' :: withReturns rest := rfl

theorem withReturns_cons {first : Char} (notNewline : first ≠ '\n') (rest : List Char) :
    withReturns (first :: rest) = first :: withReturns rest := by
  rw [withReturns, List.flatMap_cons, if_neg notNewline]
  rfl

theorem withReturns_append (front back : List Char) :
    withReturns (front ++ back) = withReturns front ++ withReturns back := List.flatMap_append ..

theorem withReturns_eq_self {text : List Char} (closed : '\n' ∉ text) : withReturns text = text := by
  induction text with
  | nil => rfl
  | cons first rest inductionHypothesis =>
      rw [List.mem_cons, not_or] at closed
      rw [withReturns_cons (Ne.symm closed.1), inductionHypothesis closed.2]

/-- A text starts with what it starts with after it got its carriage returns, unless that is one. -/
theorem starts_of_withReturns {text rest : List Char} {first : Char} (notReturn : first ≠ '\r')
    (starts : withReturns text = first :: rest) : ∃ others, text = first :: others := by
  rcases text with _ | ⟨head, others⟩
  · cases starts
  · by_cases newline : head = '\n'
    · subst newline
      exact absurd (List.cons.inj starts).1.symm notReturn
    · rw [withReturns_cons newline] at starts
      exact ⟨others, congrArg (· :: others) (List.cons.inj starts).1⟩

/-- Carriage returns in front of line feeds do not move a place. -/
theorem Position.afterText_withReturns (tabWidth : UInt64) (position : Position) (text : List Char) :
    position.afterText tabWidth (withReturns text) = position.afterText tabWidth text := by
  induction text generalizing position with
  | nil => rfl
  | cons first rest inductionHypothesis =>
      by_cases newline : first = '\n'
      · subst newline
        exact inductionHypothesis _
      · rw [withReturns_cons newline]
        exact inductionHypothesis _

/-! ## Lexemes -/

section Runs

variable (test : Char -> Bool) (feed : test '\n' = false) (return_ : test '\r' = false)
  (text : List Char)

include feed return_

/-- What stops at line ends takes the same of a line, however the line ends. -/
theorem takeWhile_withReturns : (withReturns text).takeWhile test = text.takeWhile test := by
  induction text with
  | nil => rfl
  | cons first rest inductionHypothesis =>
      by_cases newline : first = '\n'
      · subst newline
        rw [withReturns_newline, List.takeWhile_cons_of_neg (by simp [return_]),
          List.takeWhile_cons_of_neg (by simp [feed])]
      · rw [withReturns_cons newline, List.takeWhile_cons, List.takeWhile_cons, inductionHypothesis]

theorem dropWhile_withReturns :
    (withReturns text).dropWhile test = withReturns (text.dropWhile test) := by
  induction text with
  | nil => rfl
  | cons first rest inductionHypothesis =>
      by_cases newline : first = '\n'
      · subst newline
        rw [withReturns_newline, List.dropWhile_cons_of_neg (by simp [return_]),
          List.dropWhile_cons_of_neg (by simp [feed]), withReturns_newline]
      · rw [withReturns_cons newline, List.dropWhile_cons, List.dropWhile_cons, inductionHypothesis]
        split
        · rfl
        · rw [withReturns_cons newline]

omit return_ in
theorem withReturns_takeWhile : withReturns (text.takeWhile test) = text.takeWhile test := by
  apply withReturns_eq_self
  intro newline
  have passes := List.mem_takeWhile_imp newline
  rw [feed] at passes
  cases passes

end Runs

namespace Lexeme

/-- The lexeme with a carriage return in front of each line feed, also in the text behind it. -/
def withReturns (lexeme : Lexeme) : Lexeme where
  kind := lexeme.kind
  literal := HackToolchain.withReturns lexeme.literal
  spelling := HackToolchain.withReturns lexeme.spelling
  rest := HackToolchain.withReturns lexeme.rest

theorem run_withReturns (kind : TokenKind) {test : Char -> Bool} (feed : test '\n' = false)
    (return_ : test '\r' = false) (text : List Char) :
    run kind test (HackToolchain.withReturns text) = (run kind test text).withReturns := by
  unfold run verbatim withReturns
  rw [takeWhile_withReturns _ feed return_, dropWhile_withReturns _ feed return_,
    withReturns_takeWhile _ feed]

theorem word_withReturns (dialect : Dialect) {first : Char} (notNewline : first ≠ '\n')
    (text : List Char) :
    word dialect first (HackToolchain.withReturns text) = (word dialect first text).withReturns := by
  have feed : dialect.continuesName '\n' = false := by cases dialect <;> decide
  have return_ : dialect.continuesName '\r' = false := by cases dialect <;> decide
  unfold word verbatim withReturns
  rw [takeWhile_withReturns _ feed return_, dropWhile_withReturns _ feed return_,
    withReturns_cons notNewline, withReturns_takeWhile _ feed]

theorem string_withReturns (text : List Char) :
    string (HackToolchain.withReturns text) = (string text).withReturns := by
  have feed : ('\n' != '"' && !breaksLine '\n') = false := by decide
  have return_ : ('\r' != '"' && !breaksLine '\r') = false := by decide
  have literal := withReturns_takeWhile (fun character => character != '"' && !breaksLine character)
    feed text
  unfold string
  dsimp only
  rw [takeWhile_withReturns _ feed return_, dropWhile_withReturns _ feed return_]
  generalize text.takeWhile (fun character => character != '"' && !breaksLine character) = inside
    at literal
  have opened : HackToolchain.withReturns ('"' :: inside) = '"' :: inside := by
    rw [withReturns_cons (by decide), literal]
  rcases text.dropWhile (fun character => character != '"' && !breaksLine character) with
    _ | ⟨next, rest⟩
  · simp [withReturns, literal, opened]
    rfl
  · by_cases quote : next = '"'
    · subst quote
      simp [withReturns, literal, withReturns_append, withReturns_cons]
      rfl
    · by_cases newline : next = '\n'
      · subst newline
        simp [withReturns, literal, opened, withReturns_newline]
      · simp [withReturns, literal, opened, withReturns_cons newline, quote]

/-- A comment ends at the same delimiter. -/
theorem splitComment_withReturns (seen text : List Char) :
    splitComment (HackToolchain.withReturns seen.reverse).reverse (HackToolchain.withReturns text) =
      (splitComment seen text).map fun cut =>
        (HackToolchain.withReturns cut.1, HackToolchain.withReturns cut.2) := by
  fun_induction splitComment seen text with
  | case1 seen rest =>
      have collected : ('/' :: '*' :: (HackToolchain.withReturns seen.reverse).reverse).reverse =
          HackToolchain.withReturns ('/' :: '*' :: seen).reverse := by
        simp [withReturns_append, withReturns_cons]
        rfl
      rw [withReturns_cons (by decide), withReturns_cons (by decide), splitComment, collected]
      rfl
  | case2 seen character rest notEnd inductionHypothesis =>
      rw [List.reverse_cons, withReturns_append] at inductionHypothesis
      by_cases newline : character = '\n'
      · subst newline
        rw [← inductionHypothesis, withReturns_newline, splitComment, splitComment]
        · simp
          rfl
        · intro behind star
          exact absurd star (by decide)
        · intro behind star
          exact absurd star (by decide)
      · rw [← inductionHypothesis, withReturns_cons newline, splitComment]
        · simp [withReturns_cons newline]
          rfl
        · intro behind star slash
          obtain ⟨others, same⟩ := starts_of_withReturns (by decide) slash
          exact notEnd others star same
  | case3 seen => rfl

theorem blockKind_withReturns (text : List Char) :
    blockKind (HackToolchain.withReturns text) = blockKind text := by
  rcases text with _ | ⟨first, rest⟩
  · rfl
  by_cases newline : first = '\n'
  · subst newline
    rfl
  rw [withReturns_cons newline]
  rcases rest with _ | ⟨second, others⟩
  · rfl
  by_cases newline : second = '\n'
  · subst newline
    rw [withReturns_newline, blockKind_cons_cons, blockKind_cons_cons first '\n']
    by_cases star : first = '*'
    · subst star
      rfl
    · simp [blockKind, star]
  · rw [withReturns_cons newline, blockKind_cons_cons, blockKind_cons_cons first second others]

theorem blockComment_withReturns (body : List Char) :
    blockComment (HackToolchain.withReturns body) = (blockComment body).withReturns := by
  have same := splitComment_withReturns ['*', '/'] body
  change splitComment ['*', '/'] (HackToolchain.withReturns body) = _ at same
  unfold blockComment
  rw [blockKind_withReturns, same]
  cases splitComment ['*', '/'] body with
  | none =>
      have opened : HackToolchain.withReturns ('/' :: '*' :: body) =
          '/' :: '*' :: HackToolchain.withReturns body := rfl
      dsimp only [Option.map_none]
      rw [← opened]
      rfl
  | some cut => rfl

theorem slash_withReturns (rest : List Char) :
    slash (HackToolchain.withReturns rest) = (slash rest).withReturns := by
  rcases rest with _ | ⟨first, rest⟩
  · rfl
  by_cases line : first = '/'
  · subst line
    exact run_withReturns _ (by decide) (by decide) ('/' :: '/' :: rest)
  by_cases block : first = '*'
  · subst block
    exact blockComment_withReturns rest
  have alone {first : Char} (line : first ≠ '/') (block : first ≠ '*') (behind : List Char) :
      slash (first :: behind) = verbatim (.mark .slash) ['/'] (first :: behind) := by
    simp [slash, line, block]
  rw [alone line block]
  by_cases newline : first = '\n'
  · subst newline
    exact alone (by decide) (by decide) _
  · rw [withReturns_cons newline, alone line block, ← withReturns_cons newline]
    rfl

/-- A lexeme that is not a line end is the same but for the line ends in it. -/
theorem ofText_withReturns (dialect : Dialect) {first : Char} (rest : List Char)
    (notNewline : first ≠ '\n') (notReturn : first ≠ '\r') :
    ofText dialect first (HackToolchain.withReturns rest) =
      (ofText dialect first rest).withReturns := by
  have single : HackToolchain.withReturns [first] = [first] := withReturns_cons notNewline []
  unfold ofText
  rw [if_neg notNewline, if_neg notReturn, if_neg notNewline, if_neg notReturn]
  split
  · exact slash_withReturns rest
  split
  · exact string_withReturns rest
  split
  · rw [← withReturns_cons notNewline]
    exact run_withReturns _ (by decide) (by decide) _
  split
  · exact word_withReturns dialect notNewline rest
  split
  · unfold verbatim withReturns
    rw [single]
  · unfold verbatim withReturns
    rw [single]

end Lexeme

/-! ## Streams -/

/-- The token of the same piece of a source whose line ends have carriage returns.  That of a line end
is the same. -/
def Token.withReturns (token : Token) : Token :=
  if token.kind = .newline then token
  else { token with literal := String.ofList (HackToolchain.withReturns token.literal.toList) }

theorem Token.kind_withReturns (token : Token) : token.withReturns.kind = token.kind := by
  unfold withReturns
  split
  · rfl
  · rfl

namespace Scanner

/-- The scanner in front of the same text, whose line ends have carriage returns. -/
def withReturns (scanner : Scanner) : Scanner :=
  { scanner with rest := HackToolchain.withReturns scanner.rest }

variable {scanner : Scanner} {piece : Piece} {rest : List Char}

theorem withReturns_past (text rest : List Char) :
    scanner.withReturns.past (HackToolchain.withReturns text) (HackToolchain.withReturns rest) =
      (scanner.past text rest).withReturns := by
  unfold past withReturns
  dsimp only
  rw [Position.afterText_withReturns]

theorem withReturns_blanks {blanks : List Char}
    (blank : ∀ character ∈ blanks, isBlank character = true) :
    HackToolchain.withReturns blanks = blanks :=
  withReturns_eq_self fun newline => absurd (blank _ newline) (by decide)

/-- Only what starts with a line end is one. -/
theorem CutsOff.notNewline (cutsOff : scanner.CutsOff piece rest) (notNewline : piece.first ≠ '\n')
    (notReturn : piece.first ≠ '\r') : piece.token.kind ≠ .newline := by
  intro newline
  have kept := Lexeme.isKept_ofText scanner.dialect piece.first (piece.rest ++ rest)
  rw [cutsOff.cut] at kept
  unfold Lexeme.IsKept at kept
  have spells := piece.spells
  rw [newline] at kept spells
  change piece.token.literal.toList = ['\n'] at kept
  rw [kept] at spells
  generalize spelled : piece.first :: piece.rest = spelling at spells
  cases spells with
  | verbatim => exact notNewline (List.cons.inj spelled).1
  | lineEnd => exact notReturn (List.cons.inj spelled).1

/-- The next token in front of a text whose line ends have carriage returns is the same but for the line
ends in it. -/
theorem CutsOff.next_withReturns (cutsOff : scanner.CutsOff piece rest)
    (notReturn : piece.first ≠ '\r') :
    scanner.withReturns.next =
      (piece.token.withReturns, (scanner.past piece.text rest).withReturns) := by
  have starts : scanner.withReturns.rest =
      piece.blanks ++ HackToolchain.withReturns (piece.first :: (piece.rest ++ rest)) := by
    change HackToolchain.withReturns scanner.rest = _
    rw [cutsOff.starts, Piece.text, List.append_assoc, withReturns_append,
      withReturns_blanks piece.blank]
    rfl
  rw [← withReturns_past, Piece.text, withReturns_append, withReturns_blanks piece.blank]
  by_cases newline : piece.first = '\n'
  · have same : Lexeme.verbatim .newline ['\n'] (piece.rest ++ rest) =
        ⟨piece.token.kind, piece.token.literal.toList, piece.spelling, rest⟩ := by
      rw [← cutsOff.cut, newline]
      rfl
    obtain ⟨kind, literal, spelling, left⟩ := Lexeme.mk.inj same
    rw [newline, left, withReturns_newline] at starts
    have cut : Lexeme.ofText scanner.withReturns.dialect '\r'
        ('\n' :: HackToolchain.withReturns rest) =
          ⟨.newline, ['\n'], ['\r', '\n'], HackToolchain.withReturns rest⟩ := rfl
    rw [next_of_blanks piece.blank (by decide) starts cut, ← spelling]
    refine Prod.ext ?_ rfl
    change (⟨_, .newline, String.ofList ['\n']⟩ : Token) = piece.token.withReturns
    rw [Token.withReturns, if_pos kind.symm, literal, String.ofList_toList]
    exact congrArg₂ (fun position kind => (⟨position, kind, piece.token.literal⟩ : Token))
      cutsOff.placed.symm kind
  · rw [withReturns_cons newline] at starts
    have cut := Lexeme.ofText_withReturns scanner.dialect (piece.rest ++ rest) newline notReturn
    rw [cutsOff.cut] at cut
    change Lexeme.ofText scanner.withReturns.dialect _ _ = _ at cut
    rw [next_of_blanks piece.blank piece.notBlank starts cut]
    refine Prod.ext ?_ rfl
    rw [Token.withReturns, if_neg (cutsOff.notNewline newline notReturn), cutsOff.placed]
    rfl

/-- A scanner reads the same tokens, up to the line ends in them, if the line ends of its text get
carriage returns. -/
theorem CutInto.stream_withReturns {scanner : Scanner} {pieces : List Piece} {blanks : List Char}
    (cutInto : scanner.CutInto blanks pieces) (noReturn : '\r' ∉ scanner.rest) :
    scanner.withReturns.stream =
      ⟨scanner.stream.tokens.map Token.withReturns, scanner.stream.finish⟩ := by
  induction cutInto with
  | done left blank =>
      rename_i scanner
      subst left
      have same : scanner.withReturns = scanner := by
        rw [withReturns, withReturns_blanks blank]
      rw [same, stream_of_blank blank]
      rfl
  | piece cutsOff behind inductionHypothesis =>
      rename_i scanner piece rest pieces
      have starts : scanner.rest = piece.blanks ++ piece.first :: (piece.rest ++ rest) :=
        cutsOff.starts.trans (List.append_assoc ..)
      rw [starts, List.mem_append, List.mem_cons, List.mem_append] at noReturn
      have notReturn : piece.first ≠ '\r' := fun same => noReturn (.inr (.inl same.symm))
      have later := inductionHypothesis fun inRest => noReturn (.inr (.inr (.inr inRest)))
      have next := cutsOff.next_withReturns notReturn
      have goesOn : scanner.withReturns.next.1.kind ≠ .endOfFile := by
        rw [next, Token.kind_withReturns]
        exact piece.notEnd
      rw [stream_of_next goesOn, next, later, cutsOff.stream]
      rfl

end Scanner

/-- The same source with a carriage return in front of every line feed. -/
def returned (source : String) : String := String.ofList (withReturns source.toList)

/-- Whichever way its lines end, a source has the same tokens but for the line ends in them, at the same
places. -/
theorem Reading.stream_returned (reading : Reading) {source : String}
    (noReturn : '\r' ∉ source.toList) :
    reading.stream (returned source) =
      ⟨(reading.stream source).tokens.map Token.withReturns, (reading.stream source).finish⟩ := by
  let scanner := Scanner.ofSource reading.dialect reading.tabWidth source
  have same : Scanner.ofSource reading.dialect reading.tabWidth (returned source) =
      scanner.withReturns := by
    unfold Scanner.ofSource returned
    rw [String.toList_ofList]
    rfl
  obtain ⟨pieces, blanks, cutInto⟩ := scanner.exists_cutInto
  unfold Reading.stream TokenStream.without
  rw [same, cutInto.stream_withReturns noReturn]
  dsimp only
  rw [List.filter_map]
  congr 2
  apply List.filter_congr
  intro token _
  exact congrArg (fun kind => !reading.hides kind) token.kind_withReturns

end HackToolchain
