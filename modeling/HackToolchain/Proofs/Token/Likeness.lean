import HackToolchain.Proofs.Token.LineEnds
import HackToolchain.Proofs.Token.OneLine
import HackToolchain.Proofs.Token.Recovery

namespace HackToolchain

/-!
# Readers that do not look into malformed tokens

Two tokens are alike if they are the same, or both are malformed at the same place and hold slashes.
A reader that asks malformed tokens for no more than their class cannot tell tokens that are alike
apart: on cursors over them it takes the same turns, answers alike, and complains at the same places.
What it complains of is worded on one line, because it quotes whatever may be longer.

Being alike is kept by every step of a cursor and by sequences of productions.  On one cursor it says
what a reader never does; on two sources that differ in their line ends it says that these do not
matter.
-/

/-! ## Tokens and cursors -/

/-- Tokens that no reader tells apart unless it looks into malformed ones. -/
structure Token.Alike (dialect : Dialect) (token other : Token) : Prop where
  kind : token.kind = other.kind
  position : token.position = other.position
  same : token = other ∨
    token.kind = .illegal ∧ '/' ∈ token.literal.toList ∧ '/' ∈ other.literal.toList
  keeps : dialect.Keeps token.kind token.literal.toList

/-- Diagnostics at the same place, of which the first is shown as one line. -/
structure Diagnostic.Alike (diagnostic other : Diagnostic) : Prop where
  position : diagnostic.position = other.position
  oneLine : diagnostic.complaint.IsOneLine

/-- Cursors over tokens that are alike, with diagnostics that are alike. -/
structure Cursor.Alike (dialect : Dialect) (cursor other : Cursor) : Prop where
  tokens : List.Forall₂ (Token.Alike dialect) cursor.stream.tokens other.stream.tokens
  finish : cursor.stream.finish = other.stream.finish
  reports : cursor.reportsAnomalies = other.reportsAnomalies
  recorded : List.Forall₂ Diagnostic.Alike cursor.report other.report

section

variable {dialect : Dialect}

namespace Token

variable {token other : Token}

theorem Alike.refl (keeps : dialect.Keeps token.kind token.literal.toList) :
    Alike dialect token token := ⟨rfl, rfl, .inl rfl, keeps⟩

theorem alike_atEnd (position : Position) :
    Alike dialect ⟨position, .endOfFile, ""⟩ ⟨position, .endOfFile, ""⟩ := .refl rfl

/-- Tokens that are alike and well-formed are the same. -/
theorem Alike.eq (alike : Alike dialect token other) (wellFormed : token.kind ≠ .illegal) :
    token = other := alike.same.resolve_right fun malformed => wellFormed malformed.1

/-- Of a token that is no comment the line ends matter only in a comment that is not closed. -/
theorem alike_withReturns (keeps : dialect.Keeps token.kind token.literal.toList)
    (shown : ∀ form, token.kind ≠ .comment form) : Alike dialect token token.withReturns := by
  have kind := token.kind_withReturns.symm
  have position : token.position = token.withReturns.position := by
    unfold withReturns
    split
    · rfl
    · rfl
  refine ⟨kind, position, ?_, keeps⟩
  have unchanged (noFeed : '\n' ∉ token.literal.toList) : token = token.withReturns := by
    unfold withReturns
    split
    · rfl
    · rw [withReturns_eq_self noFeed, String.ofList_toList]
  by_cases newline : token.kind = .newline
  · rw [withReturns, if_pos newline]
    exact .inl rfl
  by_cases illegal : token.kind = .illegal
  · rw [illegal] at keeps
    rcases keeps with oneLine | return_ | ⟨body, open_⟩
    · exact .inl (unchanged (IsOneLine.closed oneLine))
    · exact .inl (unchanged (by rw [return_]; decide))
    · refine .inr ⟨illegal, ?_, ?_⟩
      · rw [open_]
        exact List.mem_cons_self
      · rw [withReturns, if_neg newline, String.toList_ofList, open_]
        exact List.mem_cons_self
  · exact .inl (unchanged (keeps.isOneLine newline shown illegal).closed)

end Token

namespace Cursor

variable {cursor other : Cursor}

theorem Alike.current (alike : cursor.Alike dialect other) :
    Token.Alike dialect cursor.current other.current := by
  have tokens := alike.tokens
  have finish := alike.finish
  unfold Cursor.current TokenStream.head TokenStream.endToken
  generalize cursor.stream.tokens = first at tokens
  generalize other.stream.tokens = second at tokens
  cases tokens with
  | nil =>
      rw [List.headD_nil, List.headD_nil, finish]
      exact Token.alike_atEnd _
  | cons head tail => exact head

theorem Alike.withTail (alike : cursor.Alike dialect other) (moves otherMoves : Nat) :
    Alike dialect { cursor with stream := cursor.stream.tail, moves := moves }
      { other with stream := other.stream.tail, moves := otherMoves } where
  tokens := by
    have tokens := alike.tokens
    change List.Forall₂ _ cursor.stream.tokens.tail other.stream.tokens.tail
    generalize cursor.stream.tokens = first at tokens ⊢
    generalize other.stream.tokens = second at tokens ⊢
    cases tokens with
    | nil => exact .nil
    | cons head tail => exact tail
  finish := alike.finish
  reports := alike.reports
  recorded := alike.recorded

theorem Alike.lookahead (alike : cursor.Alike dialect other) :
    Token.Alike dialect cursor.lookahead other.lookahead := (alike.withTail 0 0).current

theorem Alike.complain (alike : cursor.Alike dialect other) {position otherPosition : Position}
    (place : position = otherPosition) {complaint otherComplaint : Complaint}
    (oneLine : complaint.IsOneLine) :
    Alike dialect (cursor.complain position complaint)
      (other.complain otherPosition otherComplaint) where
  tokens := alike.tokens
  finish := alike.finish
  reports := alike.reports
  recorded := by
    rw [complain_report, complain_report]
    exact List.rel_append alike.recorded (.cons ⟨place, oneLine⟩ .nil)

theorem Alike.rejectLookahead (alike : cursor.Alike dialect other) {expected : String}
    (fixed : IsOneLine expected.toList) :
    Alike dialect (cursor.rejectLookahead expected) (other.rejectLookahead expected) :=
  alike.complain alike.lookahead.position (Complaint.isOneLine_nextIsNot fixed _)

theorem Alike.notice (alike : cursor.Alike dialect other) {token otherToken : Token}
    (tokens : Token.Alike dialect token otherToken) :
    Alike dialect (cursor.notice token) (other.notice otherToken) := by
  unfold Cursor.notice
  rw [← alike.reports, ← tokens.kind]
  split
  · exact alike.complain tokens.position (Complaint.isOneLine_anomaly token)
  · exact alike

theorem Alike.advance (alike : cursor.Alike dialect other) :
    Alike dialect cursor.advance other.advance :=
  (alike.withTail _ _).notice (alike.withTail _ _).lookahead

theorem Alike.advanceBy (alike : cursor.Alike dialect other) (count : Nat) :
    Alike dialect (cursor.advanceBy count) (other.advanceBy count) := by
  induction count generalizing cursor other with
  | zero => exact alike
  | succ count inductionHypothesis =>
      rw [advanceBy_succ, advanceBy_succ]
      exact inductionHypothesis alike.advance

theorem Alike.drain (alike : cursor.Alike dialect other) :
    Alike dialect cursor.drain other.drain := by
  unfold Cursor.drain Cursor.remaining
  rw [alike.tokens.length_eq]
  exact alike.advanceBy _

theorem alike_ofStream {stream otherStream : TokenStream}
    (tokens : List.Forall₂ (Token.Alike dialect) stream.tokens otherStream.tokens)
    (finish : stream.finish = otherStream.finish) (reportsAnomalies : Bool) :
    Alike dialect (ofStream stream reportsAnomalies) (ofStream otherStream reportsAnomalies) := by
  have placed : Alike dialect ⟨stream, reportsAnomalies, 0, #[]⟩
      ⟨otherStream, reportsAnomalies, 0, #[]⟩ := ⟨tokens, finish, rfl, .nil⟩
  have noticed := placed.notice placed.current
  exact noticed.notice placed.lookahead

end Cursor

/-! ## Productions -/

namespace Production

/-- On cursors that are alike, both productions fail or both answer, as the relation says, and the
cursors that they leave are alike again. -/
def Alike (dialect : Dialect) (answers : α -> β -> Prop) (production : Production α)
    (other : Production β) : Prop :=
  ∀ cursor otherCursor : Cursor, cursor.Alike dialect otherCursor ->
    Option.Rel answers (production cursor).1 (other otherCursor).1 ∧
      (production cursor).2.Alike dialect (other otherCursor).2

/-- The relation of answers that nothing is said of. -/
def Any (_ : α) (_ : β) : Prop := True

variable {answers : α -> β -> Prop}

theorem Alike.bind {first : Production α} {otherFirst : Production β} {next : α -> Production γ}
    {otherNext : β -> Production δ} {results : γ -> δ -> Prop}
    (begins : Alike dialect answers first otherFirst)
    (goesOn : ∀ value other, answers value other ->
      Alike dialect results (next value) (otherNext other)) :
    Alike dialect results (first >>= next) (otherFirst >>= otherNext) := by
  intro cursor otherCursor alike
  obtain ⟨answered, left⟩ := begins cursor otherCursor alike
  change Option.Rel results (andThen first next cursor).1 (andThen otherFirst otherNext otherCursor).1 ∧
    (andThen first next cursor).2.Alike dialect (andThen otherFirst otherNext otherCursor).2
  unfold andThen
  revert answered left
  rcases first cursor with ⟨answer, behind⟩
  rcases otherFirst otherCursor with ⟨otherAnswer, otherBehind⟩
  intro answered left
  cases answered with
  | none => exact ⟨.none, left⟩
  | some same => exact goesOn _ _ same behind otherBehind left

theorem Alike.mono {weaker : α -> β -> Prop} {production : Production α} {other : Production β}
    (alike : Alike dialect answers production other)
    (implied : ∀ value other, answers value other -> weaker value other) :
    Alike dialect weaker production other := by
  intro cursor otherCursor cursors
  obtain ⟨answered, left⟩ := alike cursor otherCursor cursors
  refine ⟨?_, left⟩
  revert answered
  generalize (production cursor).1 = answer
  generalize (other otherCursor).1 = otherAnswer
  intro answered
  cases answered with
  | none => exact .none
  | some same => exact .some (implied _ _ same)

/-- Productions whose answers are alike in some way are so in none. -/
theorem Alike.any {production : Production α} {other : Production β}
    (alike : Alike dialect answers production other) : Alike dialect Any production other :=
  alike.mono fun _ _ _ => True.intro

theorem alike_pure {value : α} {other : β} (same : answers value other) :
    Alike dialect answers (pure value : Production α) (pure other : Production β) :=
  fun _ _ alike => ⟨.some same, alike⟩

theorem alike_current : Alike dialect (Token.Alike dialect) current current :=
  fun _ _ alike => ⟨.some alike.current, alike⟩

theorem alike_lookahead : Alike dialect (Token.Alike dialect) lookahead lookahead :=
  fun _ _ alike => ⟨.some alike.lookahead, alike⟩

theorem alike_advance : Alike dialect Eq advance advance :=
  fun _ _ alike => ⟨.some rfl, alike.advance⟩

theorem alike_reject {complaint : Complaint} (oneLine : complaint.IsOneLine) (other : Complaint) :
    Alike dialect answers (reject complaint) (reject other) :=
  fun _ _ alike => ⟨.none, alike.complain alike.current.position oneLine⟩

theorem alike_rejectLookahead {expected : String} (fixed : IsOneLine expected.toList) :
    Alike dialect answers (rejectLookahead expected) (rejectLookahead expected) :=
  fun _ _ alike => ⟨.none, alike.rejectLookahead fixed⟩

theorem alike_rejectCurrent {expected : String} (fixed : IsOneLine expected.toList) :
    Alike dialect answers (rejectCurrent expected) (rejectCurrent expected) :=
  alike_current.bind fun _ _ _ => alike_reject (Complaint.isOneLine_currentIsNot fixed _) _

theorem alike_expect (kind : TokenKind) : Alike dialect Eq (expect kind) (expect kind) := by
  intro cursor other alike
  have same := alike.lookahead.kind
  by_cases here : cursor.lookahead.kind = kind
  · rw [expect_eq_some.mpr ⟨here, rfl⟩, expect_eq_some.mpr ⟨same ▸ here, rfl⟩]
    exact ⟨.some rfl, alike.advance⟩
  · rw [expect_of_ne here, expect_of_ne (same ▸ here)]
    exact ⟨.none, alike.rejectLookahead kind.isOneLine_text⟩

theorem alike_expectEndOfLine : Alike dialect Eq expectEndOfLine expectEndOfLine := by
  intro cursor other alike
  unfold expectEndOfLine Cursor.expectEndOfLine
  rw [← alike.lookahead.kind]
  by_cases ends : cursor.lookahead.kind.endsLine = true
  · rw [if_pos ends, if_pos ends]
    exact ⟨.some rfl, alike.advance⟩
  · rw [if_neg ends, if_neg ends]
    exact ⟨.none, alike.rejectLookahead (by decide)⟩

/-- A well-formed token that has to follow is the same on both cursors. -/
theorem alike_expected {kind : TokenKind} (wellFormed : kind ≠ .illegal) {next : Token -> Production α}
    {otherNext : Token -> Production β}
    (goesOn : ∀ token, dialect.Keeps kind token.literal.toList ->
      Alike dialect answers (next token) (otherNext token)) :
    Alike dialect answers (expect kind >>= fun _ => current >>= next)
      (expect kind >>= fun _ => current >>= otherNext) := by
  intro cursor other alike
  have follows := alike.lookahead
  by_cases here : cursor.lookahead.kind = kind
  · have there : other.lookahead.kind = kind := follows.kind ▸ here
    have token : cursor.lookahead = other.lookahead := follows.eq (here ▸ wellFormed)
    rw [andThen_eq (expect_eq_some.mpr ⟨here, rfl⟩), andThen_eq (expect_eq_some.mpr ⟨there, rfl⟩),
      current_andThen, current_andThen, Cursor.advance_current, Cursor.advance_current, ← token]
    exact goesOn _ (here ▸ follows.keeps) _ _ alike.advance
  · have there : other.lookahead.kind ≠ kind := follows.kind ▸ here
    rw [andThen_of_none (expect_of_ne here), andThen_of_none (expect_of_ne there)]
    exact ⟨.none, alike.rejectLookahead kind.isOneLine_text⟩

/-- The literal of a well-formed token is the same and as its class says. -/
theorem alike_expectLiteral {kind : TokenKind} (wellFormed : kind ≠ .illegal) :
    Alike dialect (fun literal other => literal = other ∧ dialect.Keeps kind literal.toList)
      (expectLiteral kind) (expectLiteral kind) :=
  alike_expected wellFormed fun _ keeps => alike_pure ⟨rfl, keeps⟩

theorem alike_wholeLine {item : Production α} (alike : Alike dialect Eq item item) :
    Alike dialect Eq item.wholeLine item.wholeLine := by
  refine alike.bind fun value _ same => alike_expectEndOfLine.bind fun _ _ _ => ?_
  exact alike_pure same

end Production

end
end HackToolchain
