import HackToolchain.Proofs.Token.Spelling

namespace HackToolchain

/-!
# Scanning what was written

A text that was written out of pieces is scanned back into their tokens.  Where a piece ends depends
on the character behind it, so a piece is always looked at in front of the text that follows.

`Scans` says that a piece of one line is cut into tokens, one after the other; pieces are put together
by `Scans.append`.  That the scanner's stream begins with these tokens is shown once, for all pieces,
in `Scans.stream`.
-/

/-! ## Lexemes -/

namespace Lexeme

/-- A lexeme takes at least one character off the front of a text, and leaves the rest. -/
structure Cuts (lexeme : Lexeme) (text : List Char) : Prop where
  lossless : lexeme.spelling ++ lexeme.rest = text
  nonempty : lexeme.spelling ≠ []

theorem cuts_cons (kind : TokenKind) (literal : List Char) (first : Char) (spelling rest : List Char) :
    Cuts ⟨kind, literal, first :: spelling, rest⟩ (first :: spelling ++ rest) :=
  ⟨rfl, List.cons_ne_nil _ _⟩

theorem cuts_run (kind : TokenKind) (test : Char -> Bool) (first : Char) (rest : List Char)
    (passes : test first = true) : (run kind test (first :: rest)).Cuts (first :: rest) := by
  refine ⟨List.takeWhile_append_dropWhile, ?_⟩
  change (first :: rest).takeWhile test ≠ []
  rw [List.takeWhile_cons_of_pos passes]
  exact List.cons_ne_nil _ _

theorem cuts_carriageReturn (rest : List Char) : (carriageReturn rest).Cuts ('\r' :: rest) := by
  unfold carriageReturn
  split
  · exact cuts_cons ..
  · exact cuts_cons ..

/-- A comment is cut behind its end delimiter: what was seen is kept and nothing is lost. -/
theorem splitComment_lossless {seen text spelling rest : List Char}
    (found : splitComment seen text = some (spelling, rest)) :
    ∃ taken, spelling = seen.reverse ++ taken ∧ text = taken ++ rest := by
  fun_induction splitComment seen text with
  | case1 seen behind =>
      cases found
      exact ⟨['*', '/'], by simp, rfl⟩
  | case2 seen character behind notEnd inductionHypothesis =>
      obtain ⟨taken, kept, lossless⟩ := inductionHypothesis found
      exact ⟨character :: taken, by simp [kept], by rw [lossless]; rfl⟩
  | case3 => cases found

theorem cuts_blockComment (body : List Char) : (blockComment body).Cuts ('/' :: '*' :: body) := by
  unfold blockComment
  split
  · rename_i spelling rest found
    obtain ⟨taken, rfl, rfl⟩ := splitComment_lossless found
    exact cuts_cons ..
  · exact ⟨List.append_nil _, List.cons_ne_nil _ _⟩

theorem cuts_slash (rest : List Char) : (slash rest).Cuts ('/' :: rest) := by
  unfold slash
  split
  · exact cuts_run _ _ _ _ rfl
  · exact cuts_blockComment _
  · exact cuts_cons ..

theorem cuts_string (text : List Char) : (string text).Cuts ('"' :: text) := by
  unfold string
  dsimp only
  have lossless : text.takeWhile (fun character => character != '"' && !breaksLine character) ++
      text.dropWhile (fun character => character != '"' && !breaksLine character) = text :=
    List.takeWhile_append_dropWhile
  split
  · rename_i rest behind
    rw [behind, List.append_cons] at lossless
    exact ⟨congrArg (List.cons '"') lossless, List.cons_ne_nil _ _⟩
  · exact ⟨congrArg (List.cons '"') lossless, List.cons_ne_nil _ _⟩

theorem cuts_word (dialect : Dialect) (first : Char) (text : List Char) :
    (word dialect first text).Cuts (first :: text) :=
  ⟨congrArg (List.cons first) List.takeWhile_append_dropWhile, List.cons_ne_nil _ _⟩

theorem cuts_ofText (dialect : Dialect) (first : Char) (rest : List Char) :
    (ofText dialect first rest).Cuts (first :: rest) := by
  unfold ofText
  split
  · rename_i same
    subst same
    exact cuts_cons ..
  split
  · rename_i same
    subst same
    exact cuts_carriageReturn rest
  split
  · rename_i same
    subst same
    exact cuts_slash rest
  split
  · rename_i same
    subst same
    exact cuts_string rest
  split
  · rename_i digit
    exact cuts_run _ _ _ _ digit
  split
  · exact cuts_word dialect first rest
  split
  · exact cuts_cons ..
  · exact cuts_cons ..

end Lexeme

/-! ## Streams -/

namespace Scanner

/-- The scanner behind a piece of text. -/
def past (scanner : Scanner) (text rest : List Char) : Scanner :=
  { scanner with
    position := scanner.position.afterText scanner.tabWidth text
    rest := rest }

theorem past_past (scanner : Scanner) (text more between rest : List Char) :
    (scanner.past text between).past more rest = scanner.past (text ++ more) rest := by
  unfold past Position.afterText
  rw [List.foldl_append]

/-- A token that is not the end takes up some of the text. -/
theorem next_shorter (scanner : Scanner) (goesOn : scanner.next.1.kind ≠ .endOfFile) :
    scanner.next.2.rest.length < scanner.rest.length := by
  unfold next at goesOn ⊢
  dsimp only at goesOn ⊢
  split
  · rename_i none
    rw [none] at goesOn
    exact absurd rfl goesOn
  · rename_i first rest more
    have cuts := Lexeme.cuts_ofText scanner.skipBlanks.dialect first rest
    have taken := congrArg List.length (cuts.lossless.trans more.symm)
    rw [List.length_append] at taken
    have some := List.length_pos_iff.mpr cuts.nonempty
    have blanks : scanner.skipBlanks.rest.length ≤ scanner.rest.length :=
      (List.dropWhile_suffix _).length_le
    change (Lexeme.ofText scanner.skipBlanks.dialect first rest).rest.length < _
    omega

/-- Tokens that were collected before stand in front of those that are collected now. -/
theorem collect_tokens (steps : Nat) (scanner : Scanner) (tokens : Array Token) :
    collect steps scanner tokens =
      { collect steps scanner #[] with
        tokens := tokens.toList ++ (collect steps scanner #[]).tokens } := by
  induction steps generalizing scanner tokens with
  | zero => simp [collect]
  | succ steps inductionHypothesis =>
      unfold collect
      dsimp only
      split
      · simp
      · rw [inductionHypothesis _ (tokens.push _), inductionHypothesis _ (#[].push _)]
        simp

/-- Any number of steps that exceeds the number of characters collects the same. -/
theorem collect_steps {steps steps' : Nat} {scanner : Scanner} (tokens : Array Token)
    (enough : scanner.rest.length < steps) (enough' : scanner.rest.length < steps') :
    collect steps scanner tokens = collect steps' scanner tokens := by
  induction steps generalizing steps' scanner tokens with
  | zero => exact absurd enough (Nat.not_lt_zero _)
  | succ steps inductionHypothesis =>
      obtain ⟨steps', rfl⟩ := Nat.exists_eq_succ_of_ne_zero (Nat.ne_zero_of_lt enough')
      unfold collect
      dsimp only
      split
      · rfl
      · rename_i goesOn
        have shorter := scanner.next_shorter goesOn
        exact inductionHypothesis _ (by omega) (by omega)

/-- The stream of a scanner is its next token and the stream of the scanner behind it. -/
theorem stream_of_next {scanner : Scanner} (goesOn : scanner.next.1.kind ≠ .endOfFile) :
    scanner.stream =
      { scanner.next.2.stream with tokens := scanner.next.1 :: scanner.next.2.stream.tokens } := by
  have shorter := scanner.next_shorter goesOn
  unfold stream collect
  dsimp only
  rw [if_neg goesOn, collect_steps _ shorter (Nat.lt_succ_self _), collect_tokens]
  rfl

/-- A scanner with no text left has no tokens. -/
theorem stream_nil (scanner : Scanner) (nothing : scanner.rest = []) : scanner.stream.tokens = [] := by
  unfold stream collect next skipBlanks
  rw [nothing]
  rfl

/-- The stream depends only on what is behind the blanks. -/
theorem stream_congr {scanner scanner' : Scanner} (same : scanner.skipBlanks = scanner'.skipBlanks) :
    scanner.stream = scanner'.stream := by
  have next : scanner.next = scanner'.next := by
    unfold next
    rw [same]
  by_cases goesOn : scanner.next.1.kind = .endOfFile
  · unfold stream collect
    dsimp only
    rw [if_pos goesOn, if_pos (next ▸ goesOn), next]
  · have goesOn' : scanner'.next.1.kind ≠ .endOfFile := next ▸ goesOn
    rw [stream_of_next goesOn, stream_of_next goesOn', next]

end Scanner

/-! ## Pieces of a line -/

/-- In front of the text behind it, a piece of a line is cut into the tokens, given without their
positions. -/
inductive Scans (dialect : Dialect) (behind : List Char) : List Char -> List Token -> Prop where
  | done : Scans dialect behind [] []
  | blank {first : Char} {text : List Char} {tokens : List Token}
      (isBlank : Scanner.isBlank first = true) (rest : Scans dialect behind text tokens) :
      Scans dialect behind (first :: text) tokens
  | token {first : Char} {spelling text literal : List Char} {kind : TokenKind}
      {tokens : List Token} (notBlank : Scanner.isBlank first = false)
      (oneLine : '\n' ∉ first :: spelling)
      (cut : Lexeme.ofText dialect first (spelling ++ (text ++ behind)) =
        ⟨kind, literal, first :: spelling, text ++ behind⟩)
      (rest : Scans dialect behind text tokens) :
      Scans dialect behind (first :: (spelling ++ text))
        (⟨.start, kind, String.ofList literal⟩ :: tokens)

namespace Scans

variable {dialect : Dialect} {behind text more : List Char} {tokens others : List Token}

theorem append (front : Scans dialect (more ++ behind) text tokens)
    (back : Scans dialect behind more others) :
    Scans dialect behind (text ++ more) (tokens ++ others) := by
  induction front with
  | done => exact back
  | blank isBlank _ inductionHypothesis => exact .blank isBlank inductionHypothesis
  | token notBlank oneLine cut _ inductionHypothesis =>
      rw [List.cons_append, List.append_assoc]
      refine .token notBlank oneLine ?_ inductionHypothesis
      rw [List.append_assoc]
      exact cut

/-- One token that takes up the whole piece. -/
theorem single {first : Char} {spelling literal : List Char} {kind : TokenKind}
    (notBlank : Scanner.isBlank first = false) (oneLine : '\n' ∉ first :: spelling)
    (cut : Lexeme.ofText dialect first (spelling ++ behind) =
      ⟨kind, literal, first :: spelling, behind⟩) :
    Scans dialect behind (first :: spelling) [⟨.start, kind, String.ofList literal⟩] := by
  have whole : Scans dialect behind (first :: (spelling ++ [])) _ :=
    token notBlank oneLine cut .done
  rwa [List.append_nil] at whole

/-- Pieces are parts of one line. -/
theorem oneLine (scans : Scans dialect behind text tokens) : '\n' ∉ text := by
  induction scans with
  | done => exact List.not_mem_nil
  | blank isBlank _ inductionHypothesis =>
      rintro (_ | ⟨_, later⟩)
      · exact absurd isBlank (by decide)
      · exact inductionHypothesis later
  | token _ oneLine _ _ inductionHypothesis =>
      rw [← List.cons_append, List.mem_append]
      rintro (here | later)
      · exact oneLine here
      · exact inductionHypothesis later

end Scans

/-- Text without a line feed stays on its line. -/
theorem Position.line_afterText (tabWidth : UInt64) (position : Position) {text : List Char}
    (oneLine : '\n' ∉ text) : (position.afterText tabWidth text).line = position.line := by
  induction text generalizing position with
  | nil => rfl
  | cons first rest inductionHypothesis =>
      rw [List.mem_cons, not_or] at oneLine
      have step : (position.after tabWidth first).line = position.line := by
        unfold after
        rw [if_neg (Ne.symm oneLine.1)]
        split <;> rfl
      exact (inductionHypothesis _ oneLine.2).trans step

namespace Scanner

/-- Blanks in front of the next token are passed over. -/
theorem stream_blank {scanner : Scanner} {first : Char} {rest : List Char}
    (isBlank : Scanner.isBlank first = true) (starts : scanner.rest = first :: rest) :
    scanner.stream = (scanner.past [first] rest).stream := by
  apply stream_congr
  unfold skipBlanks past
  rw [starts, List.takeWhile_cons_of_pos isBlank, List.dropWhile_cons_of_pos isBlank]
  rfl

/-- What the next token is can be told from the lexeme at the front of the text. -/
theorem next_of_cut {scanner : Scanner} {first : Char} {spelling literal rest : List Char}
    {kind : TokenKind} (notBlank : Scanner.isBlank first = false)
    (starts : scanner.rest = first :: (spelling ++ rest))
    (cut : Lexeme.ofText scanner.dialect first (spelling ++ rest) =
      ⟨kind, literal, first :: spelling, rest⟩) :
    scanner.next =
      (⟨scanner.position, kind, String.ofList literal⟩, scanner.past (first :: spelling) rest) := by
  have still : scanner.skipBlanks = scanner := by
    unfold skipBlanks
    have notPassed : ¬ Scanner.isBlank first = true := by simp [notBlank]
    rw [starts, List.takeWhile_cons_of_neg notPassed, List.dropWhile_cons_of_neg notPassed, ← starts]
    rfl
  unfold next
  rw [still]
  dsimp only
  rw [starts]
  dsimp only
  rw [cut]
  rfl

end Scanner

/-- The stream begins with the tokens of a piece that stands at the front of the text, all on the line
where the piece begins, and goes on with what is behind the piece. -/
theorem Scans.stream {dialect : Dialect} {behind text : List Char} {tokens : List Token}
    (scans : Scans dialect behind text tokens) {scanner : Scanner} (same : scanner.dialect = dialect)
    (starts : scanner.rest = text ++ behind) :
    ∃ placed : List Token, placed.map Token.unplaced = tokens ∧
      (∀ token ∈ placed, token.position.line = scanner.position.line) ∧
      scanner.stream.tokens = placed ++ (scanner.past text behind).stream.tokens := by
  induction scans generalizing scanner with
  | done =>
      refine ⟨[], rfl, nofun, ?_⟩
      rw [List.nil_append] at starts
      unfold Scanner.past
      rw [← starts]
      rfl
  | blank isBlank rest inductionHypothesis =>
      rename_i first text tokens
      have sameBehind : (scanner.past [first] (text ++ behind)).dialect = dialect := same
      obtain ⟨placed, unplaced, lines, streams⟩ := inductionHypothesis sameBehind rfl
      refine ⟨placed, unplaced, ?_, ?_⟩
      · intro token member
        rw [lines token member]
        exact Position.line_afterText _ _ (blank isBlank .done : Scans dialect [] [first] []).oneLine
      · rw [List.cons_append] at starts
        rw [Scanner.stream_blank isBlank starts, streams, Scanner.past_past]
        rfl
  | token notBlank oneLine cut rest inductionHypothesis =>
      rename_i first spelling text literal kind tokens
      have sameBehind : (scanner.past (first :: spelling) (text ++ behind)).dialect = dialect := same
      obtain ⟨placed, unplaced, lines, streams⟩ := inductionHypothesis sameBehind rfl
      rw [List.cons_append, List.append_assoc] at starts
      have next := Scanner.next_of_cut notBlank starts (same ▸ cut)
      have goesOn : scanner.next.1.kind ≠ .endOfFile := by
        have proper := (Lexeme.proper_ofText dialect first (spelling ++ (text ++ behind))).2
        rw [cut] at proper
        rw [next]
        exact proper
      refine ⟨⟨scanner.position, kind, String.ofList literal⟩ :: placed, ?_, ?_, ?_⟩
      · rw [List.map_cons, unplaced]
        rfl
      · rw [List.forall_mem_cons]
        refine ⟨rfl, fun token member => ?_⟩
        rw [lines token member]
        exact Position.line_afterText _ _ oneLine
      · rw [Scanner.stream_of_next goesOn, next, streams, Scanner.past_past]
        rfl

end HackToolchain
