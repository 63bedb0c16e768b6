import HackToolchain.Proofs.Token.Anomalies
import HackToolchain.Proofs.Token.Coverage
import HackToolchain.Proofs.Token.Progress

namespace HackToolchain

/-!
# The window over a source

A source can be read lazily: a scanner is asked for one token at a time, and asked again where the token
is one that the reader does not want to see.  After the last token it answers the end of the source from
then on.  A cursor shows two neighbours of these answers.  Which two is told by the number of its moves
alone, whatever else has been done with it, and also behind the end of the source.

What has been recorded at that time are the complaints that were made in between, and, by a cursor that
reports them, the anomalies among the answers up to the second token of the window.  Every one is
recorded once, also if diagnostics have been taken out of the cursor on the way.
-/

/-! ## Lazy reading -/

namespace TokenStream

/-- The token at a place of a stream.  The end follows behind all others, any number of times. -/
def tokenAt (stream : TokenStream) (index : Nat) : Token := (stream.tokens[index]?).getD stream.endToken

/-- What follows the first tokens of a stream. -/
def drop (stream : TokenStream) (count : Nat) : TokenStream :=
  { stream with tokens := stream.tokens.drop count }

theorem tokenAt_zero (stream : TokenStream) : stream.tokenAt 0 = stream.head := by
  unfold tokenAt head
  cases stream.tokens <;> rfl

theorem tokenAt_tail (stream : TokenStream) (index : Nat) :
    stream.tail.tokenAt index = stream.tokenAt (index + 1) := by
  unfold tokenAt tail endToken
  dsimp only
  rw [List.getElem?_tail]

theorem tokenAt_drop (stream : TokenStream) (count index : Nat) :
    (stream.drop count).tokenAt index = stream.tokenAt (count + index) := by
  unfold tokenAt drop endToken
  dsimp only
  rw [List.getElem?_drop]

theorem tail_drop (stream : TokenStream) (count : Nat) :
    (stream.drop count).tail = stream.drop (count + 1) := by
  unfold tail drop
  dsimp only
  rw [List.tail_drop]

end TokenStream

namespace Scanner

variable {hides : TokenKind -> Bool}

/-- The next token that is not hidden, and the scanner behind it. -/
def nextShown (hides : TokenKind -> Bool) (scanner : Scanner) : Token × Scanner :=
  if _ : hides scanner.next.1.kind = true ∧ scanner.next.1.kind ≠ .endOfFile then
    nextShown hides scanner.next.2
  else scanner.next
termination_by scanner.rest.length
decreasing_by
  rename_i hidden
  exact scanner.next_shorter hidden.2

/-- What a scanner answers when it has been asked a number of times before, if hidden tokens are passed
over. -/
def shown (hides : TokenKind -> Bool) : Scanner -> Nat -> Token
  | scanner, 0 => (scanner.nextShown hides).1
  | scanner, count + 1 => shown hides (scanner.nextShown hides).2 count

/-- A scanner that answers the end of its source answers nothing else any more. -/
theorem stream_of_end {scanner : Scanner} (ended : scanner.next.1.kind = .endOfFile) :
    scanner.stream.tokens = [] ∧ scanner.next.1 = scanner.stream.endToken ∧
      scanner.next.2.stream = scanner.stream := by
  have blank : ∀ character ∈ scanner.rest, isBlank character = true := by
    intro character member
    by_contra notBlank
    exact next_proper ⟨character, member, Bool.eq_false_iff.mpr notBlank⟩ ended
  rw [next_of_blank blank, stream_of_blank blank, stream_of_blank (List.forall_mem_nil _)]
  exact ⟨rfl, rfl, rfl⟩

/-- Asking for a token that is not hidden takes the first one off the tokens that are not hidden. -/
theorem nextShown_stream (hides : TokenKind -> Bool) (scanner : Scanner) :
    (scanner.nextShown hides).1 = (scanner.stream.without hides).head ∧
      (scanner.nextShown hides).2.stream.without hides = (scanner.stream.without hides).tail := by
  fun_induction nextShown hides scanner with
  | case1 scanner hidden inductionHypothesis =>
      have same : scanner.stream.without hides = scanner.next.2.stream.without hides := by
        rw [stream_of_next hidden.2]
        unfold TokenStream.without
        dsimp only
        rw [List.filter_cons_of_neg]
        simp [hidden.1]
      rw [same]
      exact inductionHypothesis
  | case2 scanner shown =>
      by_cases ended : scanner.next.1.kind = .endOfFile
      · obtain ⟨nothing, answer, behind⟩ := stream_of_end ended
        rw [answer, behind]
        unfold TokenStream.without TokenStream.head TokenStream.tail TokenStream.endToken
        dsimp only
        rw [nothing]
        exact ⟨rfl, rfl⟩
      · have notHidden : hides scanner.next.1.kind = false :=
          Bool.eq_false_iff.mpr fun hidden => shown ⟨hidden, ended⟩
        rw [stream_of_next ended]
        unfold TokenStream.without
        dsimp only
        rw [List.filter_cons_of_pos]
        · exact ⟨rfl, rfl⟩
        · rw [notHidden]
          rfl

/-- Asked again and again, the scanner answers the tokens that are not hidden one by one, and the end
from then on. -/
theorem shown_eq (hides : TokenKind -> Bool) (scanner : Scanner) (index : Nat) :
    scanner.shown hides index = (scanner.stream.without hides).tokenAt index := by
  induction index generalizing scanner with
  | zero => rw [shown, (nextShown_stream hides scanner).1, TokenStream.tokenAt_zero]
  | succ index inductionHypothesis =>
      rw [shown, inductionHypothesis, (nextShown_stream hides scanner).2, TokenStream.tokenAt_tail]

end Scanner

/-! ## Operations -/

namespace Cursor

/-- What can be done with a cursor. -/
inductive Operation where
  | advance
  | bump
  | expect (kind : TokenKind)
  | expectEndOfLine
  | rejectLookahead (expected : String)
  | complainAtCurrent (complaint : Complaint)
  | complain (position : Position) (complaint : Complaint)
  | take
  | drain
deriving DecidableEq, Repr

/-- The complaint that the lookahead is not what has to follow. -/
def missed (cursor : Cursor) (expected : String) : Diagnostic :=
  ⟨cursor.lookahead.position, .nextIsNot expected cursor.lookahead⟩

/-- A cursor that has been worked with. -/
structure Session where
  cursor : Cursor
  /-- How often the cursor has moved on, one token at a time. -/
  advances : Nat
  /-- The diagnostics that have been taken out of the cursor. -/
  taken : List Diagnostic
  /-- The complaints that have been made by the operations themselves. -/
  complaints : List Diagnostic

namespace Session

/-- Nothing has been done with the cursor. -/
def ofStream (stream : TokenStream) (reports : Bool) : Session := ⟨.ofStream stream reports, 0, [], []⟩

/-- The cursor has moved on. -/
def moved (session : Session) (count : Nat) (cursor : Cursor) : Session :=
  { session with cursor := cursor, advances := session.advances + count }

/-- A complaint has been made. -/
def complained (session : Session) (diagnostic : Diagnostic) (cursor : Cursor) : Session :=
  { session with cursor := cursor, complaints := session.complaints ++ [diagnostic] }

/-- Something had to follow, and the cursor has moved on to it or has missed it. -/
def required (session : Session) (expected : String) (answer : Bool × Cursor) : Session :=
  if answer.1 then session.moved 1 answer.2
  else session.complained (session.cursor.missed expected) answer.2

/-- Do something with the cursor. -/
def perform (session : Session) : Operation -> Session
  | .advance => session.moved 1 session.cursor.advance
  | .bump => session.moved 1 session.cursor.bump.2
  | .expect kind => session.required kind.text (session.cursor.expect kind)
  | .expectEndOfLine => session.required "end of line" session.cursor.expectEndOfLine
  | .rejectLookahead expected =>
    session.complained (session.cursor.missed expected) (session.cursor.rejectLookahead expected)
  | .complainAtCurrent complaint =>
    session.complained ⟨session.cursor.current.position, complaint⟩
      (session.cursor.complainAtCurrent complaint)
  | .complain position complaint =>
    session.complained ⟨position, complaint⟩ (session.cursor.complain position complaint)
  | .take =>
    { session with cursor := session.cursor.clear, taken := session.taken ++ session.cursor.report }
  | .drain => session.moved session.cursor.remaining session.cursor.drain

/-- All that has ever been recorded. -/
def history (session : Session) : List Diagnostic := session.taken ++ session.cursor.report

end Session

/-! ## What every operation keeps -/

/-- The anomalies among the first tokens of a stream, if they are reported. -/
def noticed (reports : Bool) (stream : TokenStream) (count : Nat) : List Diagnostic :=
  if reports then anomalies ((List.range count).map stream.tokenAt) else []

/-- A session shows a stream if its moves tell what is in the window, and it has recorded the anomalies up
to there and the complaints, each once. -/
structure Session.Shows (stream : TokenStream) (reports : Bool) (session : Session) : Prop where
  window : session.cursor.stream = stream.drop session.advances
  moves : session.cursor.moves = session.advances
  trusts : session.cursor.reportsAnomalies = reports
  records : session.history.Perm (noticed reports stream (session.advances + 2) ++ session.complaints)

theorem anomalies_append (front behind : List Token) :
    anomalies (front ++ behind) = anomalies front ++ anomalies behind := by
  unfold anomalies
  rw [List.filter_append, List.map_append]

/-- One more token is noticed behind the others. -/
theorem noticed_succ (reports : Bool) (stream : TokenStream) (count : Nat) :
    noticed reports stream (count + 1) =
      noticed reports stream count ++ if reports then anomalies [stream.tokenAt count] else [] := by
  unfold noticed
  cases reports with
  | false => rfl
  | true =>
      rw [if_pos rfl, if_pos rfl, if_pos rfl, List.range_succ, List.map_append, anomalies_append]
      rfl

theorem notice_report (cursor : Cursor) (token : Token) :
    (cursor.notice token).report =
      cursor.report ++ if cursor.reportsAnomalies then anomalies [token] else [] := by
  unfold notice
  cases cursor.reportsAnomalies with
  | false => exact (List.append_nil _).symm
  | true =>
      cases anomaly : token.kind.isAnomaly with
      | true =>
          rw [Bool.and_self, if_pos rfl, if_pos rfl, anomalies_cons_of_true anomaly]
          exact Array.toList_push
      | false =>
          rw [Bool.and_false, if_neg Bool.false_ne_true, if_pos rfl, anomalies_cons_of_false anomaly]
          exact (List.append_nil _).symm

namespace Session

variable {stream : TokenStream} {reports : Bool} {session : Session}

theorem shows_ofStream (stream : TokenStream) (reports : Bool) :
    (ofStream stream reports).Shows stream reports := by
  refine ⟨Cursor.ofStream_stream stream reports, ?moves, Cursor.ofStream_reportsAnomalies stream reports,
    List.Perm.of_eq ?records⟩
  case moves => exact ofStream_moves stream reports
  case records =>
    rw [noticed_succ, noticed_succ]
    unfold history ofStream Cursor.ofStream
    dsimp only
    rw [notice_report, notice_report, notice_reportsAnomalies]
    cases reports <;> simp [TokenStream.tokenAt_zero, ← TokenStream.tokenAt_tail, noticed, report,
      Cursor.current, Cursor.lookahead, anomalies]

/-- The current token of a session is told by its moves. -/
theorem Shows.current (shows : session.Shows stream reports) :
    session.cursor.current = stream.tokenAt session.advances := by
  unfold Cursor.current
  rw [shows.window, ← TokenStream.tokenAt_zero, TokenStream.tokenAt_drop, Nat.add_zero]

/-- So is the lookahead. -/
theorem Shows.lookahead (shows : session.Shows stream reports) :
    session.cursor.lookahead = stream.tokenAt (session.advances + 1) := by
  unfold Cursor.lookahead
  rw [shows.window, ← TokenStream.tokenAt_zero, TokenStream.tokenAt_tail, TokenStream.tokenAt_drop]

/-- One move brings the next token into the window, and what is recorded grows by that token. -/
theorem Shows.moved_advance (shows : session.Shows stream reports) :
    (session.moved 1 session.cursor.advance).Shows stream reports := by
  have window : session.cursor.advance.stream = stream.drop (session.advances + 1) := by
    rw [advance_stream, shows.window, TokenStream.tail_drop]
  have enters : session.cursor.stream.tail.tail.head = stream.tokenAt (session.advances + 2) := by
    rw [shows.window, ← TokenStream.tokenAt_zero, TokenStream.tokenAt_tail, TokenStream.tokenAt_tail,
      TokenStream.tokenAt_drop]
  refine ⟨window, ?moves, ?trusts, ?records⟩
  case moves => exact (advance_moves _).trans (congrArg (· + 1) shows.moves)
  case trusts => exact (notice_reportsAnomalies _ _).trans shows.trusts
  case records =>
    have grown : session.cursor.advance.report = session.cursor.report ++
        if reports then anomalies [stream.tokenAt (session.advances + 2)] else [] := by
      unfold Cursor.advance
      dsimp only
      rw [notice_report, ← enters, ← shows.trusts]
      rfl
    unfold moved history
    dsimp only
    rw [grown, noticed_succ reports stream (session.advances + 2), ← List.append_assoc,
      List.append_assoc (noticed reports stream _)]
    refine (shows.records.append_right _).trans ?_
    rw [List.append_assoc]
    exact List.Perm.append_left _ List.perm_append_comm

/-- A number of moves is that number of times one move. -/
theorem Shows.moved_advanceBy (shows : session.Shows stream reports) (count : Nat) :
    (session.moved count (session.cursor.advanceBy count)).Shows stream reports := by
  induction count with
  | zero => exact shows
  | succ count inductionHypothesis => exact inductionHypothesis.moved_advance

/-- A complaint is recorded once, and nothing else changes. -/
theorem Shows.complained (shows : session.Shows stream reports) (position : Position)
    (complaint : Complaint) :
    (session.complained ⟨position, complaint⟩ (session.cursor.complain position complaint)).Shows
      stream reports := by
  refine ⟨shows.window, shows.moves, shows.trusts, ?_⟩
  have grown : (session.cursor.complain position complaint).report =
      session.cursor.report ++ [⟨position, complaint⟩] := Array.toList_push
  unfold Session.complained history
  dsimp only
  rw [grown, ← List.append_assoc, ← List.append_assoc]
  exact shows.records.append_right _

theorem Shows.required (shows : session.Shows stream reports) (expected : String) (follows : Bool) :
    (session.required expected
      (if follows then (true, session.cursor.advance)
        else (false, session.cursor.rejectLookahead expected))).Shows stream reports := by
  cases follows with
  | true => exact shows.moved_advance
  | false => exact shows.complained _ _

/-- What is taken out of the cursor is not lost. -/
theorem Shows.taken (shows : session.Shows stream reports) :
    (session.perform .take).Shows stream reports := by
  refine ⟨shows.window, shows.moves, shows.trusts, ?_⟩
  have nothing : session.cursor.clear.report = [] := rfl
  unfold perform history
  dsimp only
  rw [nothing, List.append_nil]
  exact shows.records

/-- Every operation keeps it that the session shows the stream. -/
theorem Shows.perform (shows : session.Shows stream reports) (operation : Operation) :
    (session.perform operation).Shows stream reports := by
  cases operation with
  | advance => exact shows.moved_advance
  | bump => exact shows.moved_advance
  | expect kind => exact shows.required kind.text (session.cursor.lookaheadIs kind)
  | expectEndOfLine => exact shows.required "end of line" session.cursor.lookahead.kind.endsLine
  | rejectLookahead expected => exact shows.complained _ _
  | complainAtCurrent complaint => exact shows.complained _ _
  | complain position complaint => exact shows.complained _ _
  | take => exact shows.taken
  | drain => exact shows.moved_advanceBy _

/-- So does every run of operations. -/
theorem Shows.run (shows : session.Shows stream reports) (operations : List Operation) :
    (operations.foldl Session.perform session).Shows stream reports := by
  induction operations generalizing session with
  | nil => exact shows
  | cons operation operations inductionHypothesis => exact inductionHypothesis (shows.perform operation)

end Session

/-! ## The window of a source -/

theorem expect_eq (cursor : Cursor) (kind : TokenKind) :
    cursor.expect kind = if cursor.lookahead.kind = kind then (true, cursor.advance)
      else (false, { cursor with diagnostics := cursor.diagnostics.push (cursor.missed kind.text) }) := by
  unfold expect lookaheadIs
  simp only [beq_iff_eq]
  rfl

/-- A reading of a source, and a cursor on it that anything has been done with.  Its window holds two
neighbours among the tokens of the source that the reading does not hide, those that a scanner answers
lazily, and the end behind them: which two is told by the moves so far.  What is required of the
lookahead moves the cursor on or adds one diagnostic at the lookahead and changes nothing else.  All that
was ever recorded are, each once, the anomalies up to the lookahead, if the cursor reports them, and the
complaints of the operations. -/
theorem cursor_is_window (reading : Reading) (reports : Bool) (source : String)
    (operations : List Operation) :
    let unskipped := Reading.stream ⟨reading.dialect, reading.tabWidth, false, false⟩ source
    let token := fun index =>
      ((unskipped.tokens.filter fun token => !reading.hides token.kind)[index]?).getD unskipped.endToken
    let session :=
      operations.foldl Session.perform (Session.ofStream (reading.stream source) reports)
    let cursor := session.cursor
    let next := token (session.advances + 1)
    (∀ index, (Scanner.ofSource reading.dialect reading.tabWidth source).shown reading.hides index =
      token index) ∧
    cursor.moves = session.advances ∧
    cursor.current = token session.advances ∧
    cursor.lookahead = next ∧
    cursor.bump = (token session.advances, cursor.advance) ∧
    cursor.drain = (if (token session.advances).kind = .endOfFile then cursor
      else cursor.advance.drain) ∧
    (∀ kind, cursor.expect kind = if next.kind = kind then (true, cursor.advance)
      else (false, { cursor with
        diagnostics := cursor.diagnostics.push ⟨next.position, .nextIsNot kind.text next⟩ })) ∧
    cursor.expectEndOfLine = (if next.kind.endsLine then (true, cursor.advance)
      else (false, { cursor with
        diagnostics := cursor.diagnostics.push ⟨next.position, .nextIsNot "end of line" next⟩ })) ∧
    (session.taken ++ cursor.report).Perm
      ((if reports then anomalies ((List.range (session.advances + 2)).map token) else []) ++
        session.complaints) := by
  intro unskipped token session cursor next
  have nothingHidden :
      unskipped = (Scanner.ofSource reading.dialect reading.tabWidth source).stream :=
    TokenStream.without_eq_self fun token _ => Reading.hides_nothing _ _ token.kind
  have tokens : (reading.stream source).tokenAt = token := by
    change ((Scanner.ofSource reading.dialect reading.tabWidth source).stream.without _).tokenAt = _
    rw [← nothingHidden]
    rfl
  have shows : session.Shows (reading.stream source) reports := (Session.shows_ofStream _ _).run operations
  have current : cursor.current = token session.advances := by rw [← tokens]; exact shows.current
  have lookahead : cursor.lookahead = next := by
    change cursor.lookahead = token (session.advances + 1)
    rw [← tokens]
    exact shows.lookahead
  refine ⟨?lazily, shows.moves, current, lookahead, congrArg (·, cursor.advance) current, ?drained,
    ?kinds, ?line, ?records⟩
  case lazily =>
    intro index
    rw [Scanner.shown_eq, ← tokens]
    rfl
  case drained =>
    have proper : cursor.Proper := by
      unfold Proper
      rw [shows.window]
      exact fun token member => reading.proper_stream source token (List.mem_of_mem_drop member)
    rw [← current, drain_eq proper]
    simp only [currentIs, beq_iff_eq]
  case kinds =>
    intro kind
    rw [← lookahead]
    exact cursor.expect_eq kind
  case line =>
    rw [← lookahead]
    rfl
  case records =>
    rw [← tokens]
    exact shows.records

end Cursor
end HackToolchain
