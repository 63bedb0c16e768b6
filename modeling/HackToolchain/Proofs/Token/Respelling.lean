import HackToolchain.Proofs.Token.Pieces
import HackToolchain.Proofs.Token.Coverage

namespace HackToolchain

/-!
# Tokens survive respelling

A token that is neither illegal nor a comment is scanned as itself again from its literal alone, or from
its literal between quotes if it is a string, wherever a blank or nothing follows.  For this it does not
matter what followed it in its own source, because no character that a token goes on with is a blank.

So the tokens of a source can be written down with one blank between neighbours, and they are scanned
again: none of them merges with the next one, none falls apart and none changes its class.
-/

/-! ## Respelling -/

namespace TokenKind

/-- Whether the class is one of the three classes of comments. -/
def isComment : TokenKind -> Bool
  | .comment _ => true
  | _ => false

/-- The text of a token of the class: its literal, which a string puts between quotes. -/
def respell (kind : TokenKind) (literal : List Char) : List Char :=
  if kind = .string then '"' :: (literal ++ ['"']) else literal

end TokenKind

/-- The text of a token in a listing of spellings. -/
def Token.respelled (token : Token) : String :=
  String.ofList (token.kind.respell token.literal.toList)

/-- Spellings with one blank between neighbours. -/
def respelledText (tokens : List Token) : String :=
  String.intercalate " " (tokens.map Token.respelled)

/-- Tokens without the comments among them. -/
def significantTokens (tokens : List Token) : List Token := tokens.filter fun token => !token.kind.isComment

/-! ## Lexemes -/

/-- Nothing follows, or a blank does. -/
def StandsFree (behind : List Char) : Prop := Stops (fun character => character != ' ') behind

theorem StandsFree.stops {behind : List Char} (free : StandsFree behind) {test : Char -> Bool}
    (notBlank : test ' ' = false) : Stops test behind := by
  intro first member
  have blank : first = ' ' := by simpa using free first member
  rw [blank]
  exact notBlank

namespace Lexeme

/-- A text that stands free is scanned as one token. -/
def Rescans (dialect : Dialect) (kind : TokenKind) (literal spelling : List Char) : Prop :=
  ∃ first rest, spelling = first :: rest ∧ Scanner.isBlank first = false ∧
    ∀ behind, StandsFree behind ->
      ofText dialect first (rest ++ behind) = ⟨kind, literal, spelling, behind⟩

/-- What is kept of the lexeme is scanned as the same lexeme again. -/
def Survives (dialect : Dialect) (lexeme : Lexeme) : Prop :=
  lexeme.kind ≠ .illegal -> lexeme.kind.isComment = false ->
    Rescans dialect lexeme.kind lexeme.literal (lexeme.kind.respell lexeme.literal)

variable {dialect : Dialect}

theorem rescans_newline : Rescans dialect .newline ['\n'] ['\n'] :=
  ⟨'\n', [], rfl, by decide, fun _ _ => rfl⟩

theorem survives_carriageReturn (rest : List Char) : (carriageReturn rest).Survives dialect := by
  unfold carriageReturn
  split
  · exact fun _ _ => rescans_newline
  · exact fun legal => absurd rfl legal

/-- A slash is a mark where neither a slash nor a star follows. -/
theorem slash_of_standsFree {behind : List Char} (free : StandsFree behind) :
    slash behind = verbatim (.mark .slash) ['/'] behind := by
  cases behind with
  | nil => rfl
  | cons first rest =>
      have blank : first = ' ' := by simpa using stops_cons.mp free
      rw [blank]
      rfl

theorem survives_slash (rest : List Char) : (slash rest).Survives dialect := by
  unfold slash
  split
  · exact fun _ classified => Bool.noConfusion classified
  · unfold blockComment
    split
    · exact fun _ classified => Bool.noConfusion classified
    · exact fun legal => absurd rfl legal
  · exact fun _ _ => ⟨'/', [], rfl, by decide, fun _ free => slash_of_standsFree free⟩

/-- A closed string is scanned from its opening to its closing quote, whatever stands behind it. -/
theorem string_of_inside {literal : List Char}
    (inside : ∀ character ∈ literal, (character != '"' && !breaksLine character) = true)
    (behind : List Char) :
    string (literal ++ ['"'] ++ behind) = ⟨.string, literal, '"' :: (literal ++ ['"']), behind⟩ := by
  have taken : (literal ++ '"' :: behind).takeWhile
      (fun character => character != '"' && !breaksLine character) = literal := by
    rw [List.takeWhile_append_of_pos inside]
    exact List.append_nil literal
  have dropped : (literal ++ '"' :: behind).dropWhile
      (fun character => character != '"' && !breaksLine character) = '"' :: behind :=
    List.dropWhile_append_of_pos inside
  unfold string
  dsimp only
  rw [List.append_assoc, List.singleton_append, taken, dropped]
  rfl

theorem survives_string (text : List Char) : (string text).Survives dialect := by
  unfold string
  dsimp only
  split
  · intro _ _
    refine ⟨'"', _, rfl, by decide, fun behind _ => string_of_inside (fun character member => ?_) behind⟩
    exact List.mem_takeWhile_imp (p := fun character => character != '"' && !breaksLine character) member
  · exact fun legal => absurd rfl legal

theorem survives_integer {first : Char} (digit : first.isDigit = true) (rest : List Char) :
    (run .integer Char.isDigit (first :: rest)).Survives dialect := by
  intro _ _
  have plain := isPlain_of_isDigit digit
  have digits : (rest.takeWhile Char.isDigit).all Char.isDigit := List.all_takeWhile
  refine ⟨first, rest.takeWhile Char.isDigit, List.takeWhile_cons_of_pos digit, plain.notBlank,
    fun behind free => ?_⟩
  have stops : Stops Char.isDigit behind := free.stops (by decide)
  rw [ofText_plain plain, if_pos digit]
  unfold run
  rw [List.takeWhile_cons_of_pos digit, List.dropWhile_cons_of_pos digit,
    List.takeWhile_cons_of_pos digit, takeWhile_of_stops stops, dropWhile_of_stops stops,
    List.takeWhile_eq_self_iff.mpr (List.all_eq_true.mp digits),
    List.dropWhile_eq_nil_iff.mpr (List.all_eq_true.mp digits)]
  rfl

theorem survives_word {first : Char} (starts : dialect.startsName first = true) (rest : List Char) :
    (word dialect first rest).Survives dialect := by
  intro _ _
  have letters : (rest.takeWhile dialect.continuesName).all dialect.continuesName :=
    List.all_takeWhile
  have notString : (word dialect first rest).kind ≠ .string := by
    unfold word
    dsimp only
    split <;> exact nofun
  have kept : (word dialect first rest).kind.respell (word dialect first rest).literal =
      first :: rest.takeWhile dialect.continuesName := if_neg notString
  rw [kept]
  refine ⟨first, _, rfl, (dialect.isPlain_of_startsName starts).notBlank, fun behind free => ?_⟩
  have stops : Stops dialect.continuesName behind := free.stops (by cases dialect <;> decide)
  rw [ofText_word starts]
  unfold word
  rw [takeWhile_of_stops stops, dropWhile_of_stops stops,
    List.takeWhile_eq_self_iff.mpr (List.all_eq_true.mp letters),
    List.dropWhile_eq_nil_iff.mpr (List.all_eq_true.mp letters)]
  rfl

/-- Every lexeme of a source is scanned again from what is kept of it, illegal ones and comments
excepted. -/
theorem survives_ofText (first : Char) (rest : List Char) (notBlank : Scanner.isBlank first = false) :
    (ofText dialect first rest).Survives dialect := by
  by_cases newline : first = '\n'
  · subst newline
    exact fun _ _ => rescans_newline
  by_cases carriage : first = '\r'
  · subst carriage
    exact survives_carriageReturn rest
  by_cases slashed : first = '/'
  · subst slashed
    exact survives_slash rest
  by_cases quoted : first = '"'
  · subst quoted
    exact survives_string rest
  have plain : IsPlain first := ⟨notBlank, newline, carriage, slashed, quoted⟩
  by_cases digit : first.isDigit = true
  · rw [ofText_plain plain, if_pos digit]
    exact survives_integer digit rest
  by_cases starts : dialect.startsName first = true
  · rw [ofText_word starts]
    exact survives_word starts rest
  -- What is left is a token of one character, whatever follows it.
  obtain ⟨kind, notString, single⟩ : ∃ kind : TokenKind, kind ≠ .string ∧
      ∀ text, ofText dialect first text = verbatim kind [first] text := by
    cases found : Mark.ofCharacter? first with
    | some mark =>
        exact ⟨.mark mark, nofun, fun text => by
          rw [ofText_plain plain, if_neg digit, if_neg starts, found]⟩
    | none =>
        exact ⟨.unknown, nofun, fun text => by
          rw [ofText_plain plain, if_neg digit, if_neg starts, found]⟩
  rw [single]
  intro _ _
  have kept : kind.respell [first] = [first] := if_neg notString
  refine ⟨first, [], kept, notBlank, fun behind _ => ?_⟩
  exact (single behind).trans (congrArg (Lexeme.mk kind [first] · behind) kept.symm)

end Lexeme

/-! ## Tokens -/

/-- A token is scanned again from its text. -/
def Token.Rescans (dialect : Dialect) (token : Token) : Prop :=
  Lexeme.Rescans dialect token.kind token.literal.toList (token.kind.respell token.literal.toList)

/-- Every token of a source is scanned again from its text, illegal ones and comments excepted. -/
theorem Reading.rescans_of_mem {reading : Reading} {source : String} {token : Token}
    (member : token ∈ (reading.stream source).tokens) (legal : token.kind ≠ .illegal)
    (notComment : token.kind.isComment = false) : token.Rescans reading.dialect := by
  have all : ∀ token ∈ (reading.stream source).tokens, token.kind ≠ .illegal ->
      token.kind.isComment = false -> token.Rescans reading.dialect := ?_
  · exact all token member legal notComment
  refine reading.mem_stream source fun scanner same => ?_
  unfold Scanner.next
  dsimp only
  split
  · exact .inl rfl
  · rename_i first rest starts
    have notBlank : Scanner.isBlank first = false := by
      have stopped := List.head?_dropWhile_not Scanner.isBlank scanner.rest
      rw [show scanner.rest.dropWhile Scanner.isBlank = first :: rest from starts] at stopped
      simpa using stopped
    right
    unfold Token.Rescans
    rw [← same, String.toList_ofList]
    exact Lexeme.survives_ofText first rest notBlank

/-- A token whose text stands free in front of a scanner is its next one. -/
theorem Token.Rescans.next {token : Token} {scanner : Scanner} {behind : List Char}
    (rescans : token.Rescans scanner.dialect) (free : StandsFree behind)
    (starts : scanner.rest = token.kind.respell token.literal.toList ++ behind) :
    scanner.next = (⟨scanner.position, token.kind, token.literal⟩,
      scanner.past (token.kind.respell token.literal.toList) behind) := by
  obtain ⟨first, rest, spelled, notBlank, cut⟩ := rescans
  have opens : scanner.rest = first :: (rest ++ behind) := by
    rw [starts, spelled]
    rfl
  have next := Scanner.next_of_cut notBlank opens ((cut behind free).trans (by rw [spelled]))
  rw [spelled, next, String.ofList_toList]

/-- The texts of tokens with one blank between neighbours. -/
def respelledCharacters (tokens : List Token) : List Char :=
  [' '].intercalate (tokens.map fun token => token.kind.respell token.literal.toList)

theorem respelledCharacters_cons_cons (first second : Token) (rest : List Token) :
    respelledCharacters (first :: second :: rest) =
      first.kind.respell first.literal.toList ++ ' ' :: respelledCharacters (second :: rest) := by
  unfold respelledCharacters
  rw [List.map_cons, List.map_cons, List.intercalate_cons_cons, List.append_assoc]
  rfl

/-- A token without text adds the blank in front of it. -/
theorem respelledCharacters_concat (first : Token) (rest : List Token) {last : Token}
    (silent : last.kind.respell last.literal.toList = []) :
    respelledCharacters (first :: rest ++ [last]) = respelledCharacters (first :: rest) ++ [' '] := by
  induction rest generalizing first with
  | nil =>
      rw [List.singleton_append, respelledCharacters_cons_cons]
      unfold respelledCharacters
      rw [List.map_singleton, List.map_singleton, List.intercalate_singleton,
        List.intercalate_singleton, silent]
  | cons second rest inductionHypothesis =>
      rw [List.cons_append, List.cons_append, respelledCharacters_cons_cons,
        respelledCharacters_cons_cons, ← List.cons_append, inductionHypothesis, List.append_assoc]
      rfl

theorem toList_respelledText (tokens : List Token) :
    (respelledText tokens).toList = respelledCharacters tokens := by
  unfold respelledText respelledCharacters
  rw [String.toList_intercalate, List.map_map]
  refine congrArg _ (List.map_congr_left fun token _ => ?_)
  exact String.toList_ofList

/-- A scanner in front of the texts of tokens, and of nothing but blanks behind them, answers these
tokens. -/
theorem stream_respelled {tokens : List Token} {scanner : Scanner} {blanks : List Char}
    (rescans : ∀ token ∈ tokens, token.kind ≠ .endOfFile ∧ token.Rescans scanner.dialect)
    (free : StandsFree blanks) (blank : ∀ character ∈ blanks, Scanner.isBlank character = true)
    (starts : scanner.rest = respelledCharacters tokens ++ blanks) :
    scanner.stream.tokens.map Token.unplaced = tokens.map Token.unplaced := by
  induction tokens generalizing scanner with
  | nil =>
      rw [Scanner.stream_of_blank (starts ▸ blank)]
  | cons token rest inductionHypothesis =>
      obtain ⟨⟨notEnd, again⟩, others⟩ := List.forall_mem_cons.mp rescans
      obtain ⟨behind, stands, texts, left⟩ : ∃ behind, StandsFree behind ∧
          scanner.rest = token.kind.respell token.literal.toList ++ behind ∧
          (scanner.past (token.kind.respell token.literal.toList) behind).stream.tokens.map
            Token.unplaced = rest.map Token.unplaced := by
        cases rest with
        | nil =>
            refine ⟨blanks, free, ?_, ?_⟩
            · rw [starts]
              exact congrArg (· ++ blanks) (List.intercalate_singleton ..)
            · exact inductionHypothesis others (List.nil_append _).symm
        | cons second rest =>
            refine ⟨' ' :: (respelledCharacters (second :: rest) ++ blanks), stops_cons.mpr rfl, ?_, ?_⟩
            · rw [starts, respelledCharacters_cons_cons, List.append_assoc]
              rfl
            · rw [Scanner.stream_blank (rfl : Scanner.isBlank ' ' = true) rfl]
              exact inductionHypothesis others rfl
      have next := again.next stands texts
      have goesOn : scanner.next.1.kind ≠ .endOfFile := by
        rw [next]
        exact notEnd
      rw [Scanner.stream_of_next goesOn, next, List.map_cons, List.map_cons, left]
      rfl

/-- The tokens of a source are scanned again from a text that puts one blank between their spellings.
The end of the source may be spelled like a token, by nothing at all, so that the text ends with a
blank. -/
theorem stream_respelledText (reading other : Reading) (sameDialect : other.dialect = reading.dialect)
    (showsAll : ∀ kind, other.hides kind = false) {source : String} {tokens : List Token}
    (ofSource : ∀ token ∈ tokens, token ∈ (reading.stream source).tokens ∧ token.kind ≠ .illegal ∧
      token.kind.isComment = false) {text : String} (spelled : text = respelledText tokens ∨
      text = respelledText (tokens ++ [(reading.stream source).endToken])) :
    (other.stream text).tokens.map Token.unplaced = tokens.map Token.unplaced := by
  let scanner := Scanner.ofSource other.dialect other.tabWidth text
  have rescans : ∀ token ∈ tokens, token.kind ≠ .endOfFile ∧ token.Rescans scanner.dialect := by
    intro token member
    obtain ⟨listed, legal, notComment⟩ := ofSource token member
    refine ⟨(reading.proper_stream source token listed).notEnd, ?_⟩
    change token.Rescans other.dialect
    rw [sameDialect]
    exact Reading.rescans_of_mem listed legal notComment
  have shown : other.stream text = scanner.stream :=
    TokenStream.without_eq_self fun token _ => showsAll token.kind
  obtain ⟨blanks, free, blank, starts⟩ : ∃ blanks, StandsFree blanks ∧
      (∀ character ∈ blanks, Scanner.isBlank character = true) ∧
      scanner.rest = respelledCharacters tokens ++ blanks := by
    rcases spelled with rfl | rfl
    · exact ⟨[], nofun, nofun, (toList_respelledText tokens).trans (List.append_nil _).symm⟩
    · have starts := toList_respelledText (tokens ++ [(reading.stream source).endToken])
      cases tokens with
      | nil => exact ⟨[], nofun, nofun, starts⟩
      | cons token rest =>
          exact ⟨[' '], stops_cons.mpr rfl, List.forall_mem_singleton.mpr rfl,
            starts.trans (respelledCharacters_concat token rest rfl)⟩
  rw [shown]
  exact stream_respelled rescans free blank starts

theorem significantTokens_toList (stream : TokenStream) :
    significantTokens stream.toList = significantTokens stream.tokens ++ [stream.endToken] := by
  unfold significantTokens TokenStream.toList
  rw [List.filter_append]
  rfl

/-- Take the tokens of a source that has no illegal ones, and leave the comments out.  The text that
puts one blank between their spellings has the same tokens, by class and literal, and no others.  The
end-of-file token is spelled by nothing, and it does not matter whether it is put into the text. -/
theorem tokens_survive_respelling {dialect : Dialect} {tabWidth : UInt64} {source : String}
    (legal : ∀ token ∈ (Reading.stream ⟨dialect, tabWidth, false, false⟩ source).toList,
      token.kind ≠ .illegal) (otherWidth : UInt64) :
    let stream := Reading.stream ⟨dialect, tabWidth, false, false⟩ source
    let scannedAgain := fun tokens : List Token =>
      (Reading.stream ⟨dialect, otherWidth, false, false⟩ (respelledText tokens)).toList
    (scannedAgain (significantTokens stream.toList)).map Token.unplaced =
        (significantTokens stream.toList).map Token.unplaced ∧
      (scannedAgain (significantTokens stream.tokens)).map Token.unplaced =
        (significantTokens stream.toList).map Token.unplaced := by
  intro stream scannedAgain
  have ofSource : ∀ token ∈ significantTokens stream.tokens, token ∈ stream.tokens ∧
      token.kind ≠ .illegal ∧ token.kind.isComment = false := by
    intro token member
    obtain ⟨listed, kept⟩ := List.mem_filter.mp member
    exact ⟨listed, legal token (List.mem_append_left _ listed), by simpa using kept⟩
  -- The ends of the two texts differ in nothing but their places.
  have again {tokens : List Token}
      (spelled : respelledText tokens = respelledText (significantTokens stream.tokens) ∨
      respelledText tokens = respelledText (significantTokens stream.tokens ++ [stream.endToken])) :
      (scannedAgain tokens).map Token.unplaced = (significantTokens stream.toList).map Token.unplaced := by
    have tokens_eq := stream_respelledText ⟨dialect, tabWidth, false, false⟩
      ⟨dialect, otherWidth, false, false⟩ rfl (Reading.hides_nothing dialect otherWidth) ofSource spelled
    rw [significantTokens_toList, List.map_append, ← tokens_eq]
    exact List.map_append
  exact ⟨again (.inr (by rw [significantTokens_toList])), again (.inl rfl)⟩

/-- Marks that would start a comment or merge with a name stand apart, and strings keep their quotes. -/
theorem crowded_tokens_survive :
    let source := "@i$x:0\r\nD=D/ /A;JGT// \"\n\"a b\"c?\"/*\"/**/*\x0b.1/\u00e9"
    let stream := Reading.stream ⟨.asm, 4, false, false⟩ source
    (∀ token ∈ stream.toList, token.kind ≠ .illegal) ∧
      respelledText (significantTokens stream.tokens) =
        "@ i$x:0 \n D = D / / A ; JGT \n \"a b\" c ? \"/*\" * .1 / \u00e9" ∧
      (Reading.stream ⟨.asm, 8, false, false⟩ (respelledText (significantTokens stream.tokens))).toList.map
        Token.unplaced = (significantTokens stream.toList).map Token.unplaced := by
  intro source stream
  have legal : ∀ token ∈ stream.toList, token.kind ≠ .illegal := by decide +kernel
  exact ⟨legal, by decide +kernel, (tokens_survive_respelling legal 8).2⟩

end HackToolchain
