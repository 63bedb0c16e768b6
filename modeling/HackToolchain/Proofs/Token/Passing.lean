import HackToolchain.Proofs.Token.Spelling
import HackToolchain.Token.Production

namespace HackToolchain

/-!
# What productions pass

A production that succeeds has moved the cursor over some tokens and changed nothing else.  What it
passed is told by how the tokens are spelled, without their positions.

A production reads a form if it passes exactly what the form spells, for the value that it answers.
The other way round, a cursor in front of what a value spells is moved behind it, and the answer is
that value up to positions.  For this the production needs a bound for the number of tokens, and the
next token must not be one that it would go on with.
-/

namespace Cursor

variable {start between last : Cursor} {front behind : List Token}

/-- Moving the window from one place to another brings tokens into its first place that are spelled
as listed. -/
def Passes : Cursor -> List Token -> Cursor -> Prop
  | start, [], last => last = start
  | start, token :: rest, last =>
    start.stream.tokens.tail ≠ [] ∧ start.lookahead.unplaced = token ∧
      Passes start.advance rest last

/-- All tokens are as streams have them. -/
def Proper (cursor : Cursor) : Prop := ∀ token ∈ cursor.stream.tokens, token.Proper

theorem notice_stream (cursor : Cursor) (token : Token) :
    (cursor.notice token).stream = cursor.stream := by
  unfold notice
  split <;> rfl

theorem notice_reportsAnomalies (cursor : Cursor) (token : Token) :
    (cursor.notice token).reportsAnomalies = cursor.reportsAnomalies := by
  unfold notice
  split <;> rfl

theorem advance_stream (cursor : Cursor) : cursor.advance.stream = cursor.stream.tail :=
  notice_stream _ _

theorem advance_current (cursor : Cursor) : cursor.advance.current = cursor.lookahead := by
  unfold current lookahead
  rw [advance_stream]

theorem Proper.advance (proper : start.Proper) : start.advance.Proper := by
  intro token member
  rw [advance_stream] at member
  exact proper token (List.mem_of_mem_tail member)

theorem Passes.proper (passes : start.Passes front last) (proper : start.Proper) :
    last.Proper := by
  induction front generalizing start with
  | nil =>
      cases passes
      exact proper
  | cons token rest inductionHypothesis =>
      exact inductionHypothesis passes.2.2 proper.advance

theorem passes_append : start.Passes (front ++ behind) last ↔
    ∃ between, start.Passes front between ∧ between.Passes behind last := by
  induction front generalizing start with
  | nil =>
      constructor
      · exact fun passes => ⟨start, rfl, passes⟩
      · rintro ⟨between, rfl, passes⟩
        exact passes
  | cons token rest inductionHypothesis =>
      constructor
      · rintro ⟨more, spelled, passes⟩
        rcases inductionHypothesis.mp passes with ⟨between, before, after⟩
        exact ⟨between, ⟨more, spelled, before⟩, after⟩
      · rintro ⟨between, ⟨more, spelled, before⟩, after⟩
        exact ⟨more, spelled, inductionHypothesis.mpr ⟨between, before, after⟩⟩

theorem Passes.append (before : start.Passes front between)
    (after : between.Passes behind last) : start.Passes (front ++ behind) last :=
  passes_append.mpr ⟨between, before, after⟩

/-- A number of moves is one move and then the others. -/
theorem advanceBy_succ (start : Cursor) (count : Nat) :
    start.advanceBy (count + 1) = start.advance.advanceBy count := by
  induction count with
  | zero => rfl
  | succ count inductionHypothesis => exact congrArg advance inductionHypothesis

theorem advanceBy_add (start : Cursor) (first second : Nat) :
    start.advanceBy (first + second) = (start.advanceBy first).advanceBy second := by
  induction second with
  | zero => rfl
  | succ second inductionHypothesis => exact congrArg advance inductionHypothesis

theorem advanceBy_reportsAnomalies (start : Cursor) (count : Nat) :
    (start.advanceBy count).reportsAnomalies = start.reportsAnomalies := by
  induction count with
  | zero => rfl
  | succ count inductionHypothesis => exact (notice_reportsAnomalies _ _).trans inductionHypothesis

/-! ## One token -/

theorem lookahead_mem (more : start.stream.tokens.tail ≠ []) :
    start.lookahead ∈ start.stream.tokens := by
  rcases tokens : start.stream.tokens.tail with _ | ⟨next, rest⟩
  · exact absurd tokens more
  · have same : start.lookahead = next := by
      unfold lookahead TokenStream.head TokenStream.tail
      rw [tokens]
      rfl
    rw [same]
    exact List.mem_of_mem_tail (tokens ▸ List.mem_cons_self)

theorem more_of_kind (notEnd : start.lookahead.kind ≠ .endOfFile) :
    start.stream.tokens.tail ≠ [] := by
  intro none
  apply notEnd
  unfold lookahead TokenStream.head TokenStream.tail
  rw [none]
  rfl

theorem passes_lookahead (notEnd : start.lookahead.kind ≠ .endOfFile) :
    start.Passes [start.lookahead.unplaced] start.advance :=
  ⟨more_of_kind notEnd, rfl, rfl⟩

theorem passes_keyword {word : Keyword} (proper : start.Proper)
    (kind : start.lookahead.kind = .keyword word) :
    start.Passes [.ofKeyword word] start.advance := by
  have more : start.stream.tokens.tail ≠ [] := more_of_kind (by rw [kind]; exact nofun)
  exact ⟨more, Token.unplaced_eq_ofKeyword (proper _ (lookahead_mem more)) kind, rfl⟩

theorem passes_mark {mark : Mark} (proper : start.Proper)
    (kind : start.lookahead.kind = .mark mark) : start.Passes [.ofMark mark] start.advance := by
  have more : start.stream.tokens.tail ≠ [] := more_of_kind (by rw [kind]; exact nofun)
  exact ⟨more, Token.unplaced_eq_ofMark (proper _ (lookahead_mem more)) kind, rfl⟩

theorem passes_name (kind : start.lookahead.kind = .identifier) :
    start.Passes [.ofName start.lookahead.literal] start.advance := by
  have more : start.stream.tokens.tail ≠ [] := more_of_kind (by rw [kind]; exact nofun)
  exact ⟨more, Token.unplaced_eq_ofName kind, rfl⟩

theorem Passes.kind {token : Token} (passes : start.Passes (token :: behind) last) :
    start.lookahead.kind = token.kind := by
  rw [← passes.2.1]
  rfl

theorem Passes.literal {token : Token} (passes : start.Passes (token :: behind) last) :
    start.lookahead.literal = token.literal := by
  rw [← passes.2.1]
  rfl

/-- The window goes over tokens that stand for those that are listed. -/
def PassesFor : Cursor -> List Token -> Cursor -> Prop
  | start, [], last => last = start
  | start, token :: rest, last =>
    start.lookahead.StandsFor token ∧ PassesFor start.advance rest last

theorem passesFor_cons {token : Token} : start.PassesFor (token :: behind) last ↔
    ∃ between, start.PassesFor [token] between ∧ between.PassesFor behind last := by
  constructor
  · exact fun passes => ⟨start.advance, ⟨passes.1, rfl⟩, passes.2⟩
  · rintro ⟨between, ⟨stands, rfl⟩, passes⟩
    exact ⟨stands, passes⟩

/-- What is passed stands for itself. -/
theorem Passes.passesFor (passes : start.Passes front last) : start.PassesFor front last := by
  induction front generalizing start with
  | nil => exact passes
  | cons token rest inductionHypothesis =>
      exact ⟨Token.standsFor_of_unplaced passes.2.1, inductionHypothesis passes.2.2⟩

/-! ## All tokens -/

theorem lookahead_of_tokens {token : Token} {rest : List Token}
    (tokens : start.stream.tokens.tail = token :: rest) : start.lookahead = token := by
  unfold lookahead TokenStream.head TokenStream.tail
  rw [tokens]
  rfl

theorem current_of_tokens {token : Token} {rest : List Token}
    (tokens : start.stream.tokens = token :: rest) : start.current = token := by
  unfold current TokenStream.head
  rw [tokens]
  rfl

theorem current_of_no_tokens (none : start.stream.tokens = []) : start.current.kind = .endOfFile := by
  unfold current TokenStream.head
  rw [none]
  rfl

theorem no_more_of_kind (proper : start.Proper) (kind : start.lookahead.kind = .endOfFile) :
    start.stream.tokens.tail = [] := by
  rcases tokens : start.stream.tokens.tail with _ | ⟨next, rest⟩
  · rfl
  · have listed : next ∈ start.stream.tokens :=
      List.mem_of_mem_tail (tokens ▸ List.mem_cons_self)
    rw [lookahead_of_tokens tokens] at kind
    exact absurd kind (proper next listed).notEnd

theorem advance_tokens : start.advance.stream.tokens = start.stream.tokens.tail := by
  rw [advance_stream]
  rfl

theorem Passes.tokens (passes : start.Passes front last) :
    start.stream.tokens.tail.map Token.unplaced =
      front ++ last.stream.tokens.tail.map Token.unplaced := by
  induction front generalizing start with
  | nil =>
      cases passes
      rfl
  | cons token rest inductionHypothesis =>
      have behind := inductionHypothesis passes.2.2
      rw [advance_tokens] at behind
      rcases tokens : start.stream.tokens.tail with _ | ⟨next, others⟩
      · exact absurd tokens passes.1
      · rw [tokens] at behind
        rw [List.map_cons, ← lookahead_of_tokens tokens, passes.2.1, List.cons_append, ← behind]
        rfl

theorem advanceBy_tokens (start : Cursor) (count : Nat) :
    (start.advanceBy count).stream.tokens = start.stream.tokens.drop count := by
  induction count with
  | zero => rfl
  | succ count inductionHypothesis =>
      have moved : (start.advanceBy (count + 1)).stream.tokens =
          (start.advanceBy count).stream.tokens.tail := advance_tokens
      rw [moved, inductionHypothesis, List.tail_drop]

theorem advanceBy_finish (start : Cursor) (count : Nat) :
    (start.advanceBy count).stream.finish = start.stream.finish := by
  induction count with
  | zero => rfl
  | succ count inductionHypothesis =>
      have moved : (start.advanceBy (count + 1)).stream = (start.advanceBy count).stream.tail :=
        advance_stream _
      rw [moved]
      exact inductionHypothesis

/-- A cursor can be moved over the tokens that it is in front of. -/
theorem exists_passes (tokens : start.stream.tokens.tail.map Token.unplaced = front ++ behind) :
    ∃ last, start.Passes front last ∧ last.stream.tokens.tail.map Token.unplaced = behind := by
  induction front generalizing start with
  | nil => exact ⟨start, rfl, tokens⟩
  | cons token rest inductionHypothesis =>
      rcases listed : start.stream.tokens.tail with _ | ⟨next, others⟩
      · rw [listed] at tokens
        cases tokens
      · rw [listed, List.map_cons, List.cons_append] at tokens
        rcases List.cons.inj tokens with ⟨same, tokens⟩
        have moved : start.advance.stream.tokens.tail.map Token.unplaced = rest ++ behind := by
          rw [advance_tokens, listed]
          exact tokens
        rcases inductionHypothesis moved with ⟨last, passes, left⟩
        have more : start.stream.tokens.tail ≠ [] := by
          rw [listed]
          exact List.cons_ne_nil next others
        exact ⟨last, ⟨more, (lookahead_of_tokens listed).symm ▸ same, passes⟩, left⟩

/-- Nothing is recorded, and no anomaly is left that could be. -/
structure Clean (cursor : Cursor) : Prop where
  silent : cursor.diagnostics = #[]
  classified : ∀ token ∈ cursor.stream.tokens, token.kind.isAnomaly = false

theorem Clean.notice (clean : start.Clean) {token : Token}
    (classified : token.kind.isAnomaly = false) : (start.notice token).Clean := by
  unfold Cursor.notice
  rw [classified, Bool.and_false]
  exact clean

/-- The first token of a clean stream, or its end, is no anomaly. -/
theorem head_classified {stream : TokenStream}
    (classified : ∀ token ∈ stream.tokens, token.kind.isAnomaly = false) :
    stream.head.kind.isAnomaly = false := by
  rcases stream with ⟨tokens, finish⟩
  cases tokens with
  | nil => rfl
  | cons token rest => exact classified token List.mem_cons_self

theorem Clean.advance (clean : start.Clean) : start.advance.Clean := by
  have rest (token : Token) (member : token ∈ start.stream.tail.tokens) :=
    clean.classified token (List.mem_of_mem_tail member)
  have moved : Clean { start with stream := start.stream.tail, moves := start.moves + 1 } :=
    ⟨clean.silent, rest⟩
  refine moved.notice (head_classified fun token member => ?_)
  exact rest token (List.mem_of_mem_tail member)

theorem Clean.passes (clean : start.Clean) (passes : start.Passes front last) : last.Clean := by
  induction front generalizing start with
  | nil =>
      cases passes
      exact clean
  | cons token rest inductionHypothesis => exact inductionHypothesis clean.advance passes.2.2

theorem clean_ofStream {stream : TokenStream} (reportsAnomalies : Bool)
    (classified : ∀ token ∈ stream.tokens, token.kind.isAnomaly = false) :
    (ofStream stream reportsAnomalies).Clean := by
  have fresh : Clean ⟨stream, reportsAnomalies, 0, #[]⟩ := ⟨rfl, classified⟩
  refine (fresh.notice (head_classified classified)).notice ?_
  exact head_classified fun token member => classified token (List.mem_of_mem_tail member)

theorem ofStream_stream (stream : TokenStream) (reportsAnomalies : Bool) :
    (ofStream stream reportsAnomalies).stream = stream := by
  unfold ofStream
  rw [notice_stream, notice_stream]

end Cursor

namespace Production

variable {start between last : Cursor}

/-! ## Small productions -/

theorem andThen_eq_some {first : Production α} {next : α -> Production β} {cursor last : Cursor}
    {value : β} :
    (first >>= next) cursor = (some value, last) ↔
      ∃ read between, first cursor = (some read, between) ∧ next read between = (some value, last) := by
  change andThen first next cursor = (some value, last) ↔ _
  unfold andThen
  rcases done : first cursor with ⟨answer, between⟩
  cases answer with
  | none => simp
  | some read =>
      constructor
      · intro rest
        exact ⟨read, between, rfl, rest⟩
      · rintro ⟨other, place, same, rest⟩
        cases same
        exact rest

theorem pure_eq_some {value other : α} {cursor last : Cursor} :
    (pure value : Production α) cursor = (some other, last) ↔ value = other ∧ cursor = last := by
  change (some value, cursor) = (some other, last) ↔ _
  rw [Prod.mk.injEq, Option.some.injEq]

theorem andThen_eq {first : Production α} {next : α -> Production β} {read : α}
    (done : first start = (some read, between)) : (first >>= next) start = next read between := by
  change andThen first next start = _
  unfold andThen
  rw [done]

theorem andThen_of_none {first : Production α} {next : α -> Production β}
    (refused : first start = (none, last)) : (first >>= next) start = (none, last) := by
  change andThen first next start = _
  unfold andThen
  rw [refused]

theorem current_eq_some {token : Token} :
    current start = (some token, last) ↔ start.current = token ∧ start = last := by
  unfold current
  rw [Prod.mk.injEq, Option.some.injEq]

theorem lookahead_eq_some {token : Token} :
    lookahead start = (some token, last) ↔ start.lookahead = token ∧ start = last := by
  unfold lookahead
  rw [Prod.mk.injEq, Option.some.injEq]

theorem advance_eq_some : advance start = (some (), last) ↔ start.advance = last := by
  change (some (), start.advance) = (some (), last) ↔ _
  simp

theorem expect_eq_some {kind : TokenKind} :
    expect kind start = (some (), last) ↔ start.lookahead.kind = kind ∧ start.advance = last := by
  unfold expect Cursor.expect Cursor.lookaheadIs
  by_cases same : start.lookahead.kind = kind
  · rw [if_pos (beq_iff_eq.mpr same)]
    simp [same]
  · rw [if_neg fun equal => same (beq_iff_eq.mp equal)]
    simp [same]

theorem expectEndOfLine_eq_some :
    expectEndOfLine start = (some (), last) ↔
      start.lookahead.kind.endsLine = true ∧ start.advance = last := by
  unfold expectEndOfLine Cursor.expectEndOfLine
  by_cases ends : start.lookahead.kind.endsLine = true
  · rw [if_pos ends]
    simp [ends]
  · rw [if_neg ends]
    simp [ends]

theorem expectLiteral_eq_some {kind : TokenKind} {literal : String} :
    expectLiteral kind start = (some literal, last) ↔
      start.lookahead.kind = kind ∧ start.lookahead.literal = literal ∧ start.advance = last := by
  constructor
  · intro done
    rcases andThen_eq_some.mp done with ⟨⟨⟩, _, expects, rest⟩
    rcases expect_eq_some.mp expects with ⟨kind, rfl⟩
    rcases andThen_eq_some.mp rest with ⟨token, _, reads, answers⟩
    rcases current_eq_some.mp reads with ⟨rfl, rfl⟩
    rcases pure_eq_some.mp answers with ⟨rfl, rfl⟩
    exact ⟨kind, congrArg Token.literal start.advance_current.symm, rfl⟩
  · rintro ⟨kind, rfl, rfl⟩
    unfold expectLiteral
    rw [andThen_eq (expect_eq_some.mpr ⟨kind, rfl⟩), andThen_eq (current_eq_some.mpr ⟨rfl, rfl⟩),
      Cursor.advance_current]
    rfl

/-- A production that starts on a token of some classes, looked at from the token in front of it. -/
def startingOn (starts : TokenKind -> Bool) (production : Production α) : Production α :=
  fun start => if starts start.lookahead.kind then production start.advance else (none, start)

theorem startingOn_eq_some {starts : TokenKind -> Bool} {production : Production α} {value : α} :
    startingOn starts production start = (some value, last) ↔
      starts start.lookahead.kind = true ∧ production start.advance = (some value, last) := by
  unfold startingOn
  by_cases here : starts start.lookahead.kind = true
  · rw [if_pos here]
    simp only [here, true_and]
  · rw [if_neg here]
    simp only [here, Bool.false_eq_true, false_and, iff_false]
    exact nofun

end Production

/-! ## Forms -/

/-- How the values of a type are written. -/
structure Form (α : Type) where
  spelling : α -> List Token
  /-- Whether a value is one that can be read: it keeps the tokens that it starts with, and its
  numbers and strings are in order. -/
  fits : α -> Prop
  /-- A value without positions. -/
  bare : α -> α

/-- A production reads a form. -/
structure Reads (production : Production α) (form : Form α) (bound : Nat)
    (stops : TokenKind -> Prop) : Prop where
  sound : ∀ {start last : Cursor} {value : α}, start.Proper ->
    production start = (some value, last) ->
    start.Passes (form.spelling value) last ∧ form.fits value
  complete : ∀ {start last : Cursor} {value : α}, start.Passes (form.spelling value) last ->
    form.fits value -> (form.spelling value).length ≤ bound -> stops last.lookahead.kind ->
    ∃ other, form.bare other = form.bare value ∧ production start = (some other, last)

end HackToolchain
