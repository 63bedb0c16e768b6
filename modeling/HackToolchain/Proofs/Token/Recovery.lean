import Mathlib.Data.List.Forall2
import HackToolchain.Proofs.Token.Lines

namespace HackToolchain

/-!
# Lines that are read one by one

The tokens of a source of one item per line are cut at the newlines, and every line that holds tokens
stands for itself.  A production keeps to its line if it never moves beyond the last of the line's tokens
and looks no further than at the token behind that one.  What it answers is then told by the line
alone, and if it fails it has recorded one complaint.

So reading a source comes down to a verdict on each of its lines, which is the same as if the line stood
alone.  All items are answered if every line has one.  Otherwise the complaints are, one for each line
that has no item.
-/

/-! ## Lines -/

/-- The tokens of one line, and the newline or the end of the source that ends it. -/
structure TokenLine where
  tokens : List Token
  ending : Token
deriving DecidableEq, Repr

namespace TokenLine

/-- The line with one more token at its front. -/
def cons (token : Token) (line : TokenLine) : TokenLine := { line with tokens := token :: line.tokens }

/-- Cut tokens at the newlines.  The last line reaches to the end of the source. -/
def cut (atEnd : Token) : List Token -> List TokenLine
  | [] => [⟨[], atEnd⟩]
  | token :: rest =>
    if token.kind = .newline then ⟨[], token⟩ :: cut atEnd rest
    else (cut atEnd rest).modifyHead (cons token)

/-- Whether the line holds any tokens. -/
def isFilled (line : TokenLine) : Bool := !line.tokens.isEmpty

/-- The lines of tokens that are not blank. -/
def filled (atEnd : Token) (tokens : List Token) : List TokenLine := (cut atEnd tokens).filter isFilled

/-- Where the line stands in its source. -/
def number (line : TokenLine) : Nat := (line.tokens.headD line.ending).position.line

/-- A source that holds nothing but the line. -/
def alone (line : TokenLine) : TokenStream := ⟨line.tokens ++ [line.ending], line.ending.position⟩

theorem cut_line {line rest : List Token} (atEnd : Token)
    (sameLine : ∀ token ∈ line, token.kind ≠ .newline) {newline : Token}
    (isNewline : newline.kind = .newline) :
    cut atEnd (line ++ newline :: rest) = ⟨line, newline⟩ :: cut atEnd rest := by
  induction line with
  | nil => exact if_pos isNewline
  | cons token line inductionHypothesis =>
      obtain ⟨inLine, others⟩ := List.forall_mem_cons.mp sameLine
      have step : cut atEnd (token :: (line ++ newline :: rest)) =
          (cut atEnd (line ++ newline :: rest)).modifyHead (cons token) := if_neg inLine
      rw [List.cons_append, step, inductionHypothesis others]
      rfl

theorem cut_last {line : List Token} (atEnd : Token)
    (sameLine : ∀ token ∈ line, token.kind ≠ .newline) : cut atEnd line = [⟨line, atEnd⟩] := by
  induction line with
  | nil => rfl
  | cons token line inductionHypothesis =>
      obtain ⟨inLine, others⟩ := List.forall_mem_cons.mp sameLine
      have step : cut atEnd (token :: line) = (cut atEnd line).modifyHead (cons token) := if_neg inLine
      rw [step, inductionHypothesis others]
      rfl

theorem filled_newline {newline : Token} {rest : List Token} (atEnd : Token)
    (isNewline : newline.kind = .newline) : filled atEnd (newline :: rest) = filled atEnd rest := by
  have first : cut atEnd (newline :: rest) = ⟨[], newline⟩ :: cut atEnd rest := if_pos isNewline
  unfold filled
  rw [first]
  exact List.filter_cons_of_neg (fun filled => nomatch filled)

end TokenLine

/-- The lines of a source that hold more than comments. -/
def sourceLines (dialect : Dialect) (source : String) : List TokenLine :=
  let stream := (lineReading dialect).stream source
  TokenLine.filled stream.endToken stream.tokens

/-- A line as it stands in a source: it holds tokens, and only the last one of all ends it. -/
structure TokenLine.WellFormed (line : TokenLine) : Prop where
  nonempty : line.tokens ≠ []
  inside : ∀ token ∈ line.tokens, token.kind.endsLine = false
  ends : line.ending.kind.endsLine = true

namespace TokenLine

/-- The line behind its first tokens. -/
def drop (count : Nat) (line : TokenLine) : TokenLine :=
  { line with tokens := line.tokens.drop count }

/-- Behind the first token of a line there are others if the next token does not end it. -/
theorem WellFormed.more {first ending : Token} {rest : List Token}
    (wellFormed : WellFormed ⟨first :: rest, ending⟩)
    (open_ : (rest.headD ending).kind.endsLine = false) : 1 < (first :: rest).length := by
  rcases rest with _ | ⟨second, rest⟩
  · have ends : (List.headD [] ending).kind.endsLine = true := wellFormed.ends
    rw [ends] at open_
    cases open_
  · exact Nat.one_lt_succ_succ _

theorem WellFormed.drop {line : TokenLine} (wellFormed : line.WellFormed) {count : Nat}
    (inside : count < line.tokens.length) : (line.drop count).WellFormed where
  nonempty := List.ne_nil_of_length_pos (by
    change 0 < (line.tokens.drop count).length
    rw [List.length_drop]
    exact Nat.sub_pos_of_lt inside)
  inside := fun token member => wellFormed.inside token (List.mem_of_mem_drop member)
  ends := wellFormed.ends

end TokenLine

/-! ## Verdicts -/

/-- Read an item that reaches to the end of its line. -/
def Production.wholeLine (item : Production α) : Production α := do
  let value ← item
  expectEndOfLine
  return value

/-- What is read from a line that stands alone: an item, or what is wrong with the line. -/
def Production.verdict (item : Production α) (line : TokenLine) :
    Except (List Diagnostic) (Located α) :=
  match item.wholeLine (Cursor.ofStream line.alone false) with
  | (some value, _) => .ok ⟨value, line.number⟩
  | (none, behind) => .error behind.report

/-- What a verdict has to complain of. -/
def complaintsOf : Except (List Diagnostic) α -> List Diagnostic
  | .ok _ => []
  | .error complaints => complaints

/-- All items if there is nothing to complain of, and otherwise all complaints. -/
def gathered (verdicts : List (Except (List Diagnostic) α)) : Except (List Diagnostic) (List α) :=
  match verdicts.flatMap complaintsOf with
  | [] => .ok (verdicts.filterMap Except.toOption)
  | complaints => .error complaints

theorem gathered_ok (items : List α) : gathered (items.map .ok) = .ok items := by
  have silent : (items.map Except.ok).flatMap complaintsOf = [] := by
    rw [List.flatMap_map]
    exact List.flatMap_eq_nil_iff.mpr fun _ _ => rfl
  unfold gathered
  rw [silent, List.filterMap_map]
  exact congrArg Except.ok List.filterMap_some

/-- Verdicts that have nothing to complain of all have an item. -/
theorem eq_map_ok_of_silent {verdicts : List (Except (List Diagnostic) α)}
    (complains : ∀ verdict ∈ verdicts, verdict ≠ .error [])
    (silent : verdicts.flatMap complaintsOf = []) :
    verdicts = (verdicts.filterMap Except.toOption).map .ok := by
  induction verdicts with
  | nil => rfl
  | cons verdict verdicts inductionHypothesis =>
      obtain ⟨first, others⟩ := List.forall_mem_cons.mp complains
      obtain ⟨silentFirst, silentOthers⟩ := List.append_eq_nil_iff.mp silent
      cases verdict with
      | ok item => exact congrArg (.ok item :: ·) (inductionHypothesis others silentOthers)
      | error complaints => exact absurd (congrArg Except.error silentFirst) first

/-- Items are gathered exactly if each verdict has one. -/
theorem gathered_eq_ok_iff {verdicts : List (Except (List Diagnostic) α)} {items : List α}
    (complains : ∀ verdict ∈ verdicts, verdict ≠ .error []) :
    gathered verdicts = .ok items ↔ verdicts = items.map .ok := by
  constructor
  · intro all
    unfold gathered at all
    split at all
    · rename_i silent
      cases all
      exact eq_map_ok_of_silent complains silent
    · cases all
  · rintro rfl
    exact gathered_ok items

/-! ## Standing on a line -/

namespace TokenStream

theorem head_of_toList {stream : TokenStream} {first : Token} {rest : List Token}
    (listed : stream.toList = first :: rest) : stream.head = first := by
  rcases stream with ⟨_ | ⟨token, others⟩, finish⟩
  · exact (List.cons.inj listed).1
  · exact (List.cons.inj listed).1

theorem tail_of_toList {stream : TokenStream} {first second : Token} {rest : List Token}
    (listed : stream.toList = first :: second :: rest) : stream.tail.toList = second :: rest := by
  rcases stream with ⟨_ | ⟨token, others⟩, finish⟩
  · cases listed
  · exact (List.cons.inj listed).2

end TokenStream

namespace Cursor

variable {cursor : Cursor} {line : TokenLine} {first ending : Token} {rest : List Token}

/-- The cursor reports no anomalies.  In front of it are the tokens of a line, with the current one
first, and the token that ends the line. -/
structure StandsOn (cursor : Cursor) (line : TokenLine) : Prop where
  trusting : cursor.reportsAnomalies = false
  ahead : ∃ behind, cursor.stream.toList = line.tokens ++ line.ending :: behind

theorem advance_of_trusting (trusting : cursor.reportsAnomalies = false) :
    cursor.advance = { cursor with stream := cursor.stream.tail, moves := cursor.moves + 1 } := by
  unfold advance notice
  dsimp only
  rw [trusting]
  rfl

theorem advanceBy_trusting (trusting : cursor.reportsAnomalies = false) (count : Nat) :
    (cursor.advanceBy count).reportsAnomalies = false :=
  (cursor.advanceBy_reportsAnomalies count).trans trusting

/-- Where anomalies are not reported, it does not matter when a complaint is recorded. -/
theorem advanceBy_complain (trusting : cursor.reportsAnomalies = false) (position : Position)
    (complaint : Complaint) (count : Nat) :
    (cursor.complain position complaint).advanceBy count =
      (cursor.advanceBy count).complain position complaint := by
  induction count with
  | zero => rfl
  | succ count inductionHypothesis =>
      have complained : ((cursor.advanceBy count).complain position complaint).reportsAnomalies = false :=
        advanceBy_trusting trusting count
      change ((cursor.complain position complaint).advanceBy count).advance =
        (cursor.advanceBy count).advance.complain position complaint
      rw [inductionHypothesis, advance_of_trusting complained,
        advance_of_trusting (advanceBy_trusting trusting count)]
      rfl

theorem advanceBy_report (trusting : cursor.reportsAnomalies = false) (count : Nat) :
    (cursor.advanceBy count).report = cursor.report := by
  induction count with
  | zero => rfl
  | succ count inductionHypothesis =>
      change (cursor.advanceBy count).advance.report = cursor.report
      rw [advance_of_trusting (advanceBy_trusting trusting count)]
      exact inductionHypothesis

theorem advanceBy_endToken (cursor : Cursor) (count : Nat) :
    (cursor.advanceBy count).stream.endToken = cursor.stream.endToken := by
  unfold TokenStream.endToken
  rw [cursor.advanceBy_finish]

/-- Moving on leaves fewer tokens. -/
theorem length_advanceBy {count bound : Nat} (cursor : Cursor) (some : 0 < count)
    (inside : count ≤ cursor.stream.tokens.length) (enough : cursor.stream.tokens.length < bound + 1) :
    (cursor.advanceBy count).stream.tokens.length < bound := by
  rw [cursor.advanceBy_tokens, List.length_drop]
  omega

theorem complain_report (cursor : Cursor) (position : Position) (complaint : Complaint) :
    (cursor.complain position complaint).report = cursor.report ++ [⟨position, complaint⟩] :=
  Array.toList_push

namespace StandsOn

theorem current (stands : cursor.StandsOn ⟨first :: rest, ending⟩) : cursor.current = first := by
  obtain ⟨behind, ahead⟩ := stands.ahead
  exact TokenStream.head_of_toList ahead

theorem lookahead (stands : cursor.StandsOn ⟨first :: rest, ending⟩) :
    cursor.lookahead = rest.headD ending := by
  obtain ⟨behind, ahead⟩ := stands.ahead
  cases rest with
  | nil => exact TokenStream.head_of_toList (TokenStream.tail_of_toList ahead)
  | cons second rest => exact TokenStream.head_of_toList (TokenStream.tail_of_toList ahead)

theorem advance (stands : cursor.StandsOn ⟨first :: rest, ending⟩) :
    cursor.advance.StandsOn ⟨rest, ending⟩ := by
  obtain ⟨behind, ahead⟩ := stands.ahead
  rw [advance_of_trusting stands.trusting]
  refine ⟨stands.trusting, behind, ?_⟩
  cases rest with
  | nil => exact TokenStream.tail_of_toList ahead
  | cons second rest => exact TokenStream.tail_of_toList ahead

theorem advanceBy (stands : cursor.StandsOn line) {moves : Nat} (inside : moves ≤ line.tokens.length) :
    (cursor.advanceBy moves).StandsOn (line.drop moves) := by
  induction moves generalizing cursor line with
  | zero => exact stands
  | succ moves inductionHypothesis =>
      rcases line with ⟨_ | ⟨first, rest⟩, ending⟩
      · cases inside
      · rw [advanceBy_succ]
        exact inductionHypothesis stands.advance (Nat.le_of_succ_le_succ inside)

theorem complain (stands : cursor.StandsOn line) (position : Position) (complaint : Complaint) :
    (cursor.complain position complaint).StandsOn line := ⟨stands.trusting, stands.ahead⟩

theorem length_le (stands : cursor.StandsOn line) :
    line.tokens.length ≤ cursor.stream.tokens.length := by
  obtain ⟨behind, ahead⟩ := stands.ahead
  have lengths := congrArg List.length ahead
  rw [TokenStream.toList, List.length_append, List.length_append, List.length_singleton,
    List.length_cons] at lengths
  omega

/-- The tokens in front of the end of a line are those that do not end it. -/
theorem takeWhile (stands : cursor.StandsOn line)
    (inside : ∀ token ∈ line.tokens, token.kind.endsLine = false)
    (ends : line.ending.kind.endsLine = true) :
    cursor.stream.tokens.takeWhile (fun token => !token.kind.endsLine) = line.tokens := by
  obtain ⟨behind, ahead⟩ := stands.ahead
  have open_ : line.tokens.takeWhile (fun token => !token.kind.endsLine) = line.tokens := by
    rw [List.takeWhile_eq_self_iff]
    exact fun token member => congrArg not (inside token member)
  rcases List.eq_nil_or_concat' behind with rfl | ⟨others, last, rfl⟩
  · have tokens : cursor.stream.tokens = line.tokens := List.append_inj_left' ahead rfl
    rw [tokens, open_]
  · have split : line.tokens ++ line.ending :: (others ++ [last]) =
        (line.tokens ++ line.ending :: others) ++ [last] := by
      rw [List.append_assoc, List.cons_append]
    have tokens : cursor.stream.tokens = line.tokens ++ line.ending :: others :=
      List.append_inj_left' (ahead.trans split) rfl
    have stops : Stops (fun token : Token => !token.kind.endsLine) (line.ending :: others) :=
      stops_cons.mpr (congrArg not ends)
    rw [tokens, takeWhile_of_stops stops, open_]

/-- The next token that ends a line ends the one that the cursor stands on. -/
theorem advanceTo (stands : cursor.StandsOn line)
    (inside : ∀ token ∈ line.tokens, token.kind.endsLine = false)
    (ends : line.ending.kind.endsLine = true) :
    cursor.advanceTo TokenKind.endsLine = cursor.advanceBy line.tokens.length := by
  unfold Cursor.advanceTo
  rw [stands.takeWhile inside ends]

/-- Standing on the first token of a line, a cursor gets to its last one over tokens that stand for those
that are listed exactly if the others of the line do. -/
theorem passesFor_iff {written : List Token} (stands : cursor.StandsOn ⟨first :: rest, ending⟩)
    (wellFormed : TokenLine.WellFormed ⟨first :: rest, ending⟩)
    (open_ : ∀ token ∈ written, token.kind.endsLine = false) :
    (∃ last, cursor.PassesFor written last ∧ last.lookahead.kind.endsLine = true) ↔
      List.Forall₂ Token.StandsFor rest written := by
  induction written generalizing cursor first rest with
  | nil =>
      rw [List.forall₂_nil_right_iff]
      constructor
      · rintro ⟨_, rfl, ends⟩
        rcases rest with _ | ⟨second, rest⟩
        · rfl
        · rw [stands.lookahead, List.headD_cons,
            wellFormed.inside second (List.mem_cons_of_mem _ List.mem_cons_self)] at ends
          cases ends
      · rintro rfl
        refine ⟨cursor, rfl, ?_⟩
        rw [stands.lookahead]
        exact wellFormed.ends
  | cons token written inductionHypothesis =>
      obtain ⟨tokenOpen, others⟩ := List.forall_mem_cons.mp open_
      rcases rest with _ | ⟨second, rest⟩
      · constructor
        · rintro ⟨last, ⟨same, -⟩, -⟩
          have ends : ending.kind.endsLine = true := wellFormed.ends
          rw [stands.lookahead] at same
          rw [show ending.kind = token.kind from same.kind, tokenOpen] at ends
          cases ends
        · rintro ⟨⟩
      · have behind := inductionHypothesis stands.advance
          (wellFormed.drop (Nat.one_lt_succ_succ _)) others
        have here : cursor.lookahead = second := stands.lookahead
        rw [List.forall₂_cons, ← behind, ← here]
        constructor
        · rintro ⟨last, ⟨same, passes⟩, ends⟩
          exact ⟨same, last, passes, ends⟩
        · rintro ⟨same, last, passes, ends⟩
          exact ⟨last, ⟨same, passes⟩, ends⟩

end StandsOn

theorem standsOn_alone (line : TokenLine) : (ofStream line.alone false).StandsOn line := by
  refine ⟨(quiet_ofStream line.alone).trusting, [line.alone.endToken], ?_⟩
  rw [ofStream_stream, TokenStream.toList, TokenLine.alone, List.append_assoc]
  rfl

/-- What a production leaves that moves on and then succeeds, or complains of something. -/
def answer (cursor : Cursor) (moves : Nat) : Except Diagnostic α -> Option α × Cursor
  | .ok value => (some value, cursor.advanceBy moves)
  | .error found => (none, (cursor.advanceBy moves).complain found.position found.complaint)

end Cursor

/-! ## Keeping to a line -/

namespace Production

/-- Standing on a line, the production does not leave it.  How far it moves, and the value or the one
complaint that it comes to, are told by the line. -/
def KeepsToLine (production : Production α) : Prop :=
  ∀ line : TokenLine, line.WellFormed ->
    ∃ (outcome : Except Diagnostic α) (moves : Nat), moves < line.tokens.length ∧
      ∀ cursor : Cursor, cursor.StandsOn line -> production cursor = cursor.answer moves outcome

/-- A production that does not move and whose answer is told by the line keeps to it. -/
theorem keepsToLine_of_still {production : Production α}
    (answers : ∀ line : TokenLine, line.WellFormed -> ∃ outcome : Except Diagnostic α,
      ∀ cursor : Cursor, cursor.StandsOn line -> production cursor = cursor.answer 0 outcome) :
    production.KeepsToLine := fun line wellFormed =>
  have ⟨outcome, same⟩ := answers line wellFormed
  ⟨outcome, 0, List.length_pos_iff.mpr wellFormed.nonempty, same⟩

theorem keepsToLine_pure (value : α) : (pure value : Production α).KeepsToLine :=
  keepsToLine_of_still fun _ _ => ⟨.ok value, fun _ _ => rfl⟩

theorem keepsToLine_current : current.KeepsToLine := by
  refine keepsToLine_of_still fun line wellFormed => ?_
  rcases line with ⟨_ | ⟨first, rest⟩, ending⟩
  · exact absurd rfl wellFormed.nonempty
  · refine ⟨.ok first, fun cursor stands => ?_⟩
    unfold current
    rw [stands.current]
    rfl

theorem keepsToLine_reject (complaint : Complaint) :
    (reject complaint : Production α).KeepsToLine := by
  refine keepsToLine_of_still fun line wellFormed => ?_
  rcases line with ⟨_ | ⟨first, rest⟩, ending⟩
  · exact absurd rfl wellFormed.nonempty
  · refine ⟨.error ⟨first.position, complaint⟩, fun cursor stands => ?_⟩
    unfold reject Cursor.complainAtCurrent
    rw [stands.current]
    rfl

theorem keepsToLine_rejectLookahead (expected : String) :
    (rejectLookahead expected : Production α).KeepsToLine := by
  refine keepsToLine_of_still fun line wellFormed => ?_
  rcases line with ⟨_ | ⟨first, rest⟩, ending⟩
  · exact absurd rfl wellFormed.nonempty
  · let found := rest.headD ending
    refine ⟨.error ⟨found.position, .nextIsNot expected found⟩, fun cursor stands => ?_⟩
    unfold rejectLookahead Cursor.rejectLookahead
    rw [stands.lookahead]
    rfl

/-- A production that starts further along a line does not leave it either. -/
theorem KeepsToLine.behind {production : Production α} (keeps : production.KeepsToLine)
    {line : TokenLine} (wellFormed : line.WellFormed) {moves : Nat}
    (inside : moves < line.tokens.length) :
    ∃ (outcome : Except Diagnostic α) (all : Nat), all < line.tokens.length ∧
      ∀ cursor : Cursor, cursor.StandsOn line ->
        production (cursor.advanceBy moves) = cursor.answer all outcome := by
  obtain ⟨outcome, more, still, same⟩ := keeps _ (wellFormed.drop inside)
  have within : moves + more < line.tokens.length := by
    change more < (line.tokens.drop moves).length at still
    rw [List.length_drop] at still
    omega
  refine ⟨outcome, moves + more, within, fun cursor stands => ?_⟩
  rw [same _ (stands.advanceBy inside.le)]
  cases outcome <;> simp only [Cursor.answer, Cursor.advanceBy_add]

/-- What is read behind a first production starts further along the same line. -/
theorem KeepsToLine.bind {first : Production α} {next : α -> Production β}
    (begins : first.KeepsToLine) (goesOn : ∀ value, (next value).KeepsToLine) :
    (first >>= next).KeepsToLine := by
  intro line wellFormed
  obtain ⟨outcome, moves, inside, same⟩ := begins line wellFormed
  cases outcome with
  | error found =>
      exact ⟨.error found, moves, inside, fun cursor stands => andThen_of_none (same cursor stands)⟩
  | ok value =>
      obtain ⟨final, all, within, sameBehind⟩ := (goesOn value).behind wellFormed inside
      refine ⟨final, all, within, fun cursor stands => ?_⟩
      rw [andThen_eq (same cursor stands), sameBehind cursor stands]

/-- A production may look at the next token, and move on to it if it does not end the line. -/
theorem keepsToLine_lookahead {next : Token -> Production α}
    (goesOn : ∀ token, (next token).KeepsToLine ∨ token.kind.endsLine = false ∧
      ∃ behind : Production α, behind.KeepsToLine ∧ next token = (do advance; behind)) :
    (do next (← lookahead) : Production α).KeepsToLine := by
  intro line wellFormed
  rcases line with ⟨_ | ⟨first, rest⟩, ending⟩
  · exact absurd rfl wellFormed.nonempty
  · have looks (cursor : Cursor) (stands : cursor.StandsOn ⟨first :: rest, ending⟩) :
        (do next (← lookahead) : Production α) cursor = next (rest.headD ending) cursor :=
      andThen_eq (lookahead_eq_some.mpr ⟨stands.lookahead, rfl⟩)
    rcases goesOn (rest.headD ending) with stays | ⟨open_, behind, keeps, moved⟩
    · obtain ⟨outcome, moves, inside, same⟩ := stays _ wellFormed
      exact ⟨outcome, moves, inside, fun cursor stands =>
        (looks cursor stands).trans (same cursor stands)⟩
    · obtain ⟨outcome, all, within, same⟩ := keeps.behind wellFormed (wellFormed.more open_)
      refine ⟨outcome, all, within, fun cursor stands => ?_⟩
      rw [looks cursor stands, moved]
      exact same cursor stands

theorem keepsToLine_rejectCurrent (expected : String) :
    (rejectCurrent expected : Production α).KeepsToLine :=
  keepsToLine_current.bind fun _ => keepsToLine_reject _

/-- Only a token that does not end its line may be required. -/
theorem keepsToLine_expect {kind : TokenKind} (inside : kind.endsLine = false) :
    (expect kind).KeepsToLine := by
  intro line wellFormed
  rcases line with ⟨_ | ⟨first, rest⟩, ending⟩
  · exact absurd rfl wellFormed.nonempty
  · by_cases here : (rest.headD ending).kind = kind
    · refine ⟨.ok (), 1, wellFormed.more (here ▸ inside), fun cursor stands => ?_⟩
      exact expect_eq_some.mpr ⟨by rw [stands.lookahead]; exact here, rfl⟩
    · refine ⟨.error ⟨(rest.headD ending).position, .nextIsNot kind.text (rest.headD ending)⟩, 0,
        Nat.succ_pos _, fun cursor stands => ?_⟩
      have different : cursor.lookaheadIs kind = false := by
        unfold Cursor.lookaheadIs
        rw [stands.lookahead]
        exact beq_false_of_ne here
      unfold expect Cursor.expect Cursor.rejectLookahead
      rw [different, stands.lookahead]
      rfl

theorem keepsToLine_expectLiteral {kind : TokenKind} (inside : kind.endsLine = false) :
    (expectLiteral kind).KeepsToLine :=
  (keepsToLine_expect inside).bind fun _ => keepsToLine_current.bind fun _ => keepsToLine_pure _

/-! ## Outcomes of lines -/

/-- What becomes of a line wherever it stands: either it is read to its end, or reading stops on it with
one complaint. -/
inductive Outcome (item : Production α) (line : TokenLine) : Prop where
  | reads (value : α)
      (same : ∀ cursor : Cursor, cursor.StandsOn line ->
        item.wholeLine cursor = (some value, cursor.advanceBy line.tokens.length))
  | refuses (found : Diagnostic) (moves : Nat) (inside : moves < line.tokens.length)
      (same : ∀ cursor : Cursor, cursor.StandsOn line -> item.wholeLine cursor =
        (none, (cursor.advanceBy moves).complain found.position found.complaint))

theorem wholeLine_eq_some {item : Production α} {start behind : Cursor} {value : α} :
    item.wholeLine start = (some value, behind) ↔ ∃ last, item start = (some value, last) ∧
      last.lookahead.kind.endsLine = true ∧ last.advance = behind := by
  unfold wholeLine
  rw [andThen_eq_some]
  constructor
  · rintro ⟨read, last, reads, rest⟩
    obtain ⟨⟨⟩, _, ends, answers⟩ := andThen_eq_some.mp rest
    obtain ⟨rfl, rfl⟩ := pure_eq_some.mp answers
    obtain ⟨ends, same⟩ := expectEndOfLine_eq_some.mp ends
    exact ⟨last, reads, ends, same⟩
  · rintro ⟨last, reads, ends, same⟩
    refine ⟨value, last, reads, ?_⟩
    rw [andThen_eq (expectEndOfLine_eq_some.mpr ⟨ends, same⟩)]
    rfl

/-- An item that does not reach to the end of its line is refused at the token behind it. -/
theorem KeepsToLine.outcome {item : Production α} (keeps : item.KeepsToLine) {line : TokenLine}
    (wellFormed : line.WellFormed) : item.Outcome line := by
  obtain ⟨outcome, moves, inside, same⟩ := keeps line wellFormed
  cases outcome with
  | error found =>
      exact .refuses found moves inside fun cursor stands => andThen_of_none (same cursor stands)
  | ok value =>
      have rest : line.drop moves = ⟨line.tokens.drop moves, line.ending⟩ := rfl
      rcases left : line.tokens.drop moves with _ | ⟨last, _ | ⟨next, others⟩⟩
      · exact absurd left (List.drop_eq_nil_iff.not.mpr (Nat.not_le.mpr inside))
      · have whole : line.tokens.length = moves + 1 := by
          have length := congrArg List.length left
          rw [List.length_drop, List.length_singleton] at length
          omega
        refine .reads value fun cursor stands => ?_
        have behind := stands.advanceBy inside.le
        rw [rest, left] at behind
        have ends : (cursor.advanceBy moves).lookahead.kind.endsLine = true := by
          rw [behind.lookahead]
          exact wellFormed.ends
        rw [whole]
        exact wholeLine_eq_some.mpr ⟨_, same cursor stands, ends, rfl⟩
      · refine .refuses ⟨next.position, .nextIsNot "end of line" next⟩ moves inside
          fun cursor stands => ?_
        have behind := stands.advanceBy inside.le
        rw [rest, left] at behind
        have open_ : next.kind.endsLine = false :=
          wellFormed.inside next (List.mem_of_mem_drop (left ▸ List.mem_cons_of_mem _ List.mem_cons_self))
        have refuses : expectEndOfLine (cursor.advanceBy moves) = (none,
            (cursor.advanceBy moves).complain next.position (.nextIsNot "end of line" next)) := by
          unfold expectEndOfLine Cursor.expectEndOfLine Cursor.rejectLookahead
          rw [behind.lookahead, List.headD_cons, open_]
          rfl
        exact (andThen_eq (same cursor stands)).trans (andThen_of_none refuses)

section Verdict

variable {item : Production α} {line : TokenLine}

theorem verdict_of_reads {value : α}
    (same : ∀ cursor : Cursor, cursor.StandsOn line ->
      item.wholeLine cursor = (some value, cursor.advanceBy line.tokens.length)) :
    item.verdict line = .ok ⟨value, line.number⟩ := by
  unfold Production.verdict
  rw [same _ (Cursor.standsOn_alone line)]

theorem verdict_of_refuses {found : Diagnostic} {moves : Nat}
    (same : ∀ cursor : Cursor, cursor.StandsOn line -> item.wholeLine cursor =
      (none, (cursor.advanceBy moves).complain found.position found.complaint)) :
    item.verdict line = .error [found] := by
  have stands := Cursor.standsOn_alone line
  have silent : (Cursor.ofStream line.alone false).report = [] :=
    congrArg Array.toList (Cursor.quiet_ofStream line.alone).silent
  unfold Production.verdict
  rw [same _ stands]
  dsimp only
  rw [Cursor.complain_report, Cursor.advanceBy_report stands.trusting, silent]
  rfl

/-- The item of a line is read up to the end of the line, and has the line's number. -/
theorem verdict_eq_ok_iff {entry : Located α} : item.verdict line = .ok entry ↔
    (∃ last, item (Cursor.ofStream line.alone false) = (some entry.item, last) ∧
      last.lookahead.kind.endsLine = true) ∧ entry.line = line.number := by
  unfold Production.verdict
  constructor
  · intro accepted
    split at accepted
    · rename_i value behind done
      cases accepted
      obtain ⟨last, reads, ends, -⟩ := wholeLine_eq_some.mp done
      exact ⟨⟨last, reads, ends⟩, rfl⟩
    · cases accepted
  · rintro ⟨⟨last, reads, ends⟩, number⟩
    rw [wholeLine_eq_some.mpr ⟨last, reads, ends, rfl⟩]
    exact congrArg (fun line => Except.ok (Located.mk entry.item line)) number.symm

/-- A line has an item, or one thing is wrong with it. -/
theorem Outcome.verdict (outcome : item.Outcome line) :
    (∃ value, item.verdict line = .ok ⟨value, line.number⟩) ∨
      ∃ found, item.verdict line = .error [found] := by
  cases outcome with
  | reads value same => exact .inl ⟨value, verdict_of_reads same⟩
  | refuses found moves inside same => exact .inr ⟨found, verdict_of_refuses same⟩

end Verdict
end Production

/-! ## Reading line by line -/

/-- Of the classes that end a line only newlines are among the tokens. -/
def OnlyNewlinesEnd (tokens : List Token) : Prop :=
  ∀ token ∈ tokens, token.kind.endsLine = true -> token.kind = .newline

theorem OnlyNewlinesEnd.advanceBy {cursor : Cursor} (shown : OnlyNewlinesEnd cursor.stream.tokens)
    (count : Nat) : OnlyNewlinesEnd (cursor.advanceBy count).stream.tokens := by
  rw [cursor.advanceBy_tokens]
  exact fun token member => shown token (List.mem_of_mem_drop member)

/-- Tokens in front of a newline, or of the end of all tokens, are a line of their own. -/
theorem TokenLine.filled_line {line : TokenLine} (wellFormed : line.WellFormed) {atEnd : Token}
    {rest : List Token} (follows : rest = [] ∧ line.ending = atEnd ∨
      ∃ others, rest = line.ending :: others ∧ line.ending.kind = .newline) :
    filled atEnd (line.tokens ++ rest) = line :: filled atEnd rest := by
  have sameLine : ∀ token ∈ line.tokens, token.kind ≠ .newline := by
    intro token member isNewline
    have inside := wellFormed.inside token member
    rw [isNewline] at inside
    cases inside
  have isFilled : line.isFilled = true := by simpa [TokenLine.isFilled] using wellFormed.nonempty
  rcases follows with ⟨rfl, rfl⟩ | ⟨others, rfl, isNewline⟩
  · unfold filled
    rw [List.append_nil, cut_last line.ending sameLine]
    exact List.filter_cons_of_pos isFilled
  · rw [filled_newline atEnd isNewline]
    unfold filled
    rw [cut_line atEnd sameLine isNewline]
    exact List.filter_cons_of_pos isFilled

/-- Where the current token does not end a line, the cursor stands on one. -/
theorem Cursor.exists_line {cursor : Cursor} (trusting : cursor.reportsAnomalies = false)
    (shown : OnlyNewlinesEnd cursor.stream.tokens) (starts : cursor.current.kind.endsLine = false) :
    ∃ line : TokenLine, line.WellFormed ∧ cursor.StandsOn line ∧
      TokenLine.filled cursor.stream.endToken cursor.stream.tokens =
        line :: TokenLine.filled cursor.stream.endToken
          (cursor.stream.tokens.drop line.tokens.length) := by
  let open_ := fun token : Token => !token.kind.endsLine
  let row := cursor.stream.tokens.takeWhile open_
  let rest := cursor.stream.tokens.dropWhile open_
  have split : row ++ rest = cursor.stream.tokens := List.takeWhile_append_dropWhile
  have inside : ∀ token ∈ row, token.kind.endsLine = false := by
    intro token member
    simpa [open_] using List.mem_takeWhile_imp member
  have nonempty : row ≠ [] := by
    rcases tokens : cursor.stream.tokens with _ | ⟨first, others⟩
    · rw [current_of_no_tokens tokens] at starts
      cases starts
    · rw [current_of_tokens tokens] at starts
      have passes : open_ first = true := congrArg not starts
      change cursor.stream.tokens.takeWhile open_ ≠ []
      rw [tokens, List.takeWhile_cons_of_pos passes]
      exact List.cons_ne_nil _ _
  have left : cursor.stream.tokens.drop row.length = rest := by rw [← split, List.drop_left]
  obtain ⟨ending, ends, follows, ahead⟩ : ∃ ending : Token, ending.kind.endsLine = true ∧
      (rest = [] ∧ ending = cursor.stream.endToken ∨
        ∃ others, rest = ending :: others ∧ ending.kind = .newline) ∧
      ∃ behind, cursor.stream.toList = row ++ ending :: behind := by
    rcases tokens : rest with _ | ⟨ending, others⟩
    · refine ⟨cursor.stream.endToken, rfl, .inl ⟨rfl, rfl⟩, [], ?_⟩
      rw [TokenStream.toList, ← split, tokens, List.append_nil]
    · have ends : ending.kind.endsLine = true := by
        have stopped := List.head?_dropWhile_not open_ cursor.stream.tokens
        rw [show cursor.stream.tokens.dropWhile open_ = ending :: others from tokens] at stopped
        simpa [open_] using stopped
      have member : ending ∈ cursor.stream.tokens := by
        rw [← split, tokens]
        exact List.mem_append_right _ List.mem_cons_self
      refine ⟨ending, ends, .inr ⟨others, rfl, shown ending member ends⟩,
        others ++ [cursor.stream.endToken], ?_⟩
      rw [TokenStream.toList, ← split, tokens, List.append_assoc, List.cons_append]
  have wellFormed : TokenLine.WellFormed ⟨row, ending⟩ := ⟨nonempty, inside, ends⟩
  have lines := TokenLine.filled_line wellFormed follows
  rw [split] at lines
  refine ⟨⟨row, ending⟩, wellFormed, ⟨trusting, ahead⟩, lines.trans ?_⟩
  rw [left]

section Reading

variable {item : Production α}

/-- A line is read where it stands, and reading goes on at the token that ends it. -/
theorem readItems_line (keeps : item.KeepsToLine) {line : TokenLine} (wellFormed : line.WellFormed)
    {cursor : Cursor} (stands : cursor.StandsOn line) (rounds : Nat) (items : Array (Located α)) :
    (∃ value, item.verdict line = .ok ⟨value, line.number⟩ ∧
      readItems item (rounds + 1) cursor items = readItems item rounds
        (cursor.advanceBy line.tokens.length) (items.push ⟨value, line.number⟩)) ∨
    ∃ found, item.verdict line = .error [found] ∧
      readItems item (rounds + 1) cursor items = readItems item rounds
        ((cursor.advanceBy line.tokens.length).complain found.position found.complaint) items := by
  have ⟨current, number⟩ : cursor.current.kind.endsLine = false ∧
      cursor.current.position.line = line.number := by
    rcases line with ⟨_ | ⟨first, rest⟩, ending⟩
    · exact absurd rfl wellFormed.nonempty
    · rw [stands.current]
      exact ⟨wellFormed.inside first List.mem_cons_self, rfl⟩
  have notEnd : cursor.currentIs .endOfFile = false := by
    refine beq_false_of_ne fun same => ?_
    rw [same] at current
    cases current
  have notNewline : cursor.currentIs .newline = false := by
    refine beq_false_of_ne fun same => ?_
    rw [same] at current
    cases current
  have step : readItems item (rounds + 1) cursor items =
      match item.wholeLine cursor with
      | (some value, behind) => readItems item rounds behind (items.push ⟨value, line.number⟩)
      | (none, behind) => readItems item rounds (behind.advanceTo TokenKind.endsLine) items := by
    rw [← number, readItems, notEnd, notNewline]
    rfl
  cases keeps.outcome wellFormed with
  | reads value same =>
      refine .inl ⟨value, Production.verdict_of_reads same, ?_⟩
      rw [step, same cursor stands]
  | refuses found moves inside same =>
      refine .inr ⟨found, Production.verdict_of_refuses same, ?_⟩
      have within := wellFormed.drop inside
      have behind := (stands.advanceBy inside.le).complain found.position found.complaint
      have left : (line.drop moves).tokens.length = line.tokens.length - moves := List.length_drop
      rw [step, same cursor stands]
      dsimp only
      rw [behind.advanceTo within.inside within.ends, left,
        Cursor.advanceBy_complain (stands.advanceBy inside.le).trusting, ← Cursor.advanceBy_add,
        Nat.add_sub_cancel' inside.le]

/-- A newline in front of a line is passed over. -/
theorem readItems_newline {newline : Token} {rest : List Token} (isNewline : newline.kind = .newline)
    {cursor : Cursor} (tokens : cursor.stream.tokens = newline :: rest) (rounds : Nat)
    (items : Array (Located α)) :
    readItems item (rounds + 1) cursor items = readItems item rounds (cursor.advanceBy 1) items := by
  rw [readItems, Cursor.currentIs, Cursor.currentIs, Cursor.current_of_tokens tokens, isNewline]
  rfl

theorem readItems_end {cursor : Cursor} (tokens : cursor.stream.tokens = []) (rounds : Nat)
    (items : Array (Located α)) : readItems item (rounds + 1) cursor items = (items, cursor) := by
  have atEnd : cursor.currentIs .endOfFile = true := beq_iff_eq.mpr (Cursor.current_of_no_tokens tokens)
  rw [readItems, if_pos atEnd]

/-- From wherever a cursor stands, the rest of the source is read line by line. -/
theorem readItems_eq_verdicts (keeps : item.KeepsToLine) {rounds : Nat} {cursor : Cursor}
    (trusting : cursor.reportsAnomalies = false) (shown : OnlyNewlinesEnd cursor.stream.tokens)
    (enough : cursor.stream.tokens.length < rounds) (items : Array (Located α)) :
    ∃ verdicts, verdicts = (TokenLine.filled cursor.stream.endToken
        cursor.stream.tokens).map item.verdict ∧
      (readItems item rounds cursor items).1.toList =
        items.toList ++ verdicts.filterMap Except.toOption ∧
      (readItems item rounds cursor items).2.report =
        cursor.report ++ verdicts.flatMap complaintsOf := by
  refine ⟨_, rfl, ?_⟩
  induction rounds generalizing cursor items with
  | zero => exact absurd enough (Nat.not_lt_zero _)
  | succ rounds inductionHypothesis =>
      by_cases starts : cursor.current.kind.endsLine = false
      · obtain ⟨line, wellFormed, stands, lines⟩ := cursor.exists_line trusting shown starts
        have long := List.length_pos_iff.mpr wellFormed.nonempty
        have fewer := cursor.length_advanceBy long stands.length_le enough
        have onward := stands.advanceBy (Nat.le_refl _)
        rw [lines, ← cursor.advanceBy_tokens, ← cursor.advanceBy_endToken line.tokens.length,
          List.map_cons]
        rcases readItems_line keeps wellFormed stands rounds items with
          ⟨value, verdict, step⟩ | ⟨found, verdict, step⟩
        · obtain ⟨added, recorded⟩ := inductionHypothesis onward.trusting (shown.advanceBy _) fewer
            (items.push ⟨value, line.number⟩)
          rw [step, added, recorded, verdict, Cursor.advanceBy_report trusting]
          constructor
          · simp [Except.toOption]
          · rfl
        · have complained := onward.complain found.position found.complaint
          obtain ⟨added, recorded⟩ :=
            inductionHypothesis complained.trusting (shown.advanceBy _) fewer items
          rw [step, added, recorded, verdict, Cursor.complain_report,
            Cursor.advanceBy_report trusting, List.append_assoc]
          constructor
          · rfl
          · rfl
      · rcases tokens : cursor.stream.tokens with _ | ⟨newline, rest⟩
        · rw [readItems_end tokens]
          exact ⟨(List.append_nil _).symm, (List.append_nil _).symm⟩
        · have isNewline : newline.kind = .newline := by
            rw [Cursor.current_of_tokens tokens] at starts
            exact shown newline (tokens ▸ List.mem_cons_self) (eq_true_of_ne_false starts)
          have fewer := cursor.length_advanceBy Nat.one_pos (by simp [tokens]) enough
          have onward := inductionHypothesis (Cursor.advanceBy_trusting trusting 1) (shown.advanceBy 1)
            fewer items
          rw [cursor.advanceBy_tokens, tokens, List.drop_one, List.tail_cons, cursor.advanceBy_endToken,
            Cursor.advanceBy_report trusting] at onward
          rw [readItems_newline isNewline tokens, TokenLine.filled_newline _ isNewline]
          exact onward

end Reading

/-! ## Sources -/

/-- Where comments are left out and the end is not listed, only newlines end lines. -/
theorem onlyNewlinesEnd_stream (dialect : Dialect) (source : String) :
    OnlyNewlinesEnd ((lineReading dialect).stream source).tokens := by
  intro token member ends
  have notEnd := ((lineReading dialect).proper_stream source token member).notEnd
  have shown := (List.mem_filter.mp member).2
  cases kind : token.kind with
  | newline => rfl
  | endOfFile => exact absurd kind notEnd
  | comment _ =>
      rw [kind] at shown
      cases shown
  | _ =>
      rw [kind] at ends
      cases ends

theorem TokenLine.wellFormed_of_mem_cut {atEnd : Token} (isEnd : atEnd.kind.endsLine = true)
    {tokens : List Token} (shown : OnlyNewlinesEnd tokens) :
    ∀ line ∈ cut atEnd tokens, (∀ token ∈ line.tokens, token.kind.endsLine = false) ∧
      line.ending.kind.endsLine = true := by
  induction tokens with
  | nil =>
      intro line member
      cases List.mem_singleton.mp member
      exact ⟨nofun, isEnd⟩
  | cons token rest inductionHypothesis =>
      have others := inductionHypothesis fun other member =>
        shown other (List.mem_cons_of_mem token member)
      intro line member
      by_cases isNewline : token.kind = .newline
      · rw [cut, if_pos isNewline] at member
        rcases List.mem_cons.mp member with rfl | member
        · exact ⟨nofun, by rw [isNewline]; rfl⟩
        · exact others line member
      · rw [cut, if_neg isNewline] at member
        have open_ : token.kind.endsLine = false :=
          eq_false_of_ne_true fun ends => isNewline (shown token List.mem_cons_self ends)
        rcases lines : cut atEnd rest with _ | ⟨head, tail⟩
        · rw [lines] at member
          cases member
        · rw [lines] at member others
          rcases List.mem_cons.mp member with rfl | member
          · obtain ⟨inside, ends⟩ := others head List.mem_cons_self
            exact ⟨List.forall_mem_cons.mpr ⟨open_, inside⟩, ends⟩
          · exact others line (List.mem_cons_of_mem head member)

/-- The lines of a source hold tokens and are ended by newlines or by the end of the source. -/
theorem wellFormed_of_mem_sourceLines {dialect : Dialect} {source : String} {line : TokenLine}
    (member : line ∈ sourceLines dialect source) : line.WellFormed := by
  obtain ⟨listed, isFilled⟩ := List.mem_filter.mp member
  obtain ⟨inside, ends⟩ :=
    TokenLine.wellFormed_of_mem_cut rfl (onlyNewlinesEnd_stream dialect source) line listed
  exact ⟨by simpa [TokenLine.isFilled] using isFilled, inside, ends⟩

section Sources

variable {item : Production α} (dialect : Dialect) (source : String)

/-- Reading a source comes down to a verdict on each of its lines. -/
theorem readLines_eq_gathered (keeps : item.KeepsToLine) :
    readLines dialect item source = gathered ((sourceLines dialect source).map item.verdict) := by
  let start := Cursor.ofStream ((lineReading dialect).stream source) false
  have quiet : start.Quiet := Cursor.quiet_ofStream _
  have here : start.stream = (lineReading dialect).stream source := Cursor.ofStream_stream _ _
  have shown : OnlyNewlinesEnd start.stream.tokens := by
    rw [here]
    exact onlyNewlinesEnd_stream dialect source
  obtain ⟨verdicts, told, added, recorded⟩ :=
    readItems_eq_verdicts keeps quiet.trusting shown (Nat.lt_succ_self _) #[]
  rw [here] at told
  change verdicts = (sourceLines dialect source).map item.verdict at told
  have silent : start.report = [] := congrArg Array.toList quiet.silent
  rw [silent, List.nil_append] at recorded
  rw [← told]
  generalize run : readItems item (start.stream.tokens.length + 1) start #[] = result
    at added recorded
  obtain ⟨items, last⟩ := result
  have same : runLines dialect item source = (items, last) := run
  unfold readLines gathered Cursor.hasErrors
  rw [same]
  dsimp only at added recorded ⊢
  rw [recorded, added]
  have empty : last.diagnostics.isEmpty = (verdicts.flatMap complaintsOf).isEmpty := by
    rw [← recorded, Cursor.report, ← Array.isEmpty_toList]
  rw [empty]
  cases verdicts.flatMap complaintsOf with
  | nil => rfl
  | cons complaint complaints => rfl

/-- Each line of a source has an item or one thing wrong with it. -/
theorem verdict_of_mem_sourceLines (keeps : item.KeepsToLine) {line : TokenLine}
    (member : line ∈ sourceLines dialect source) :
    (∃ value, item.verdict line = .ok ⟨value, line.number⟩) ∨
      ∃ found, item.verdict line = .error [found] :=
  (keeps.outcome (wellFormed_of_mem_sourceLines member)).verdict

/-- The items of a source are answered exactly if each of its lines has one. -/
theorem readLines_eq_ok_iff (keeps : item.KeepsToLine) {items : List (Located α)} :
    readLines dialect item source = .ok items ↔
      (sourceLines dialect source).map item.verdict = items.map .ok := by
  rw [readLines_eq_gathered dialect source keeps]
  refine gathered_eq_ok_iff fun verdict member silent => ?_
  obtain ⟨line, listed, rfl⟩ := List.mem_map.mp member
  rcases verdict_of_mem_sourceLines dialect source keeps listed with ⟨entry, done⟩ | ⟨found, done⟩
  · rw [done] at silent
    cases silent
  · rw [done] at silent
    cases silent

end Sources
end HackToolchain
