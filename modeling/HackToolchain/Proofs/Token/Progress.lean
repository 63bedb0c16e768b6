import HackToolchain.Proofs.Token.Complaints
import HackToolchain.Proofs.Token.Recovery

namespace HackToolchain

/-!
# Readers make progress

A reader moves a cursor from token to token, and it is done when it stands on the end of the source at
the latest.  A walk is a way there that makes no move at the end: every move takes one token off those
that are left, so moves and tokens that are left add up to the same number all the way.

A production that repeats or nests is bounded by a number, which is to account for tokens only.  This is
shown by comparing the production with itself under two bounds.  As long as both exceed the number of
tokens that are left, there is no difference, and there is none either if what follows behind the next
token is replaced by something else that does the same there.  So it is never the bound that ends a
reading, and no round starts the next one without having moved on.
-/

namespace Cursor

/-! ## Walks -/

/-- The current token is not the end of the source. -/
def OnToken (cursor : Cursor) : Prop := cursor.current.kind ≠ .endOfFile

/-- What becomes of a cursor that is moved only on tokens.  Complaints may be made on the way. -/
inductive Walks (start : Cursor) : Cursor -> Prop where
  | still : Walks start start
  | complain {last : Cursor} (walks : Walks start last) (position : Position) (complaint : Complaint) :
      Walks start (last.complain position complaint)
  | advance {last : Cursor} (walks : Walks start last) (onToken : last.OnToken) :
      Walks start last.advance

variable {start between last : Cursor}

theorem Walks.trans (walks : start.Walks between) (onward : between.Walks last) : start.Walks last := by
  induction onward with
  | still => exact walks
  | complain _ position complaint inductionHypothesis =>
      exact inductionHypothesis.complain position complaint
  | advance _ onToken inductionHypothesis => exact inductionHypothesis.advance onToken

theorem walks_complain (cursor : Cursor) (position : Position) (complaint : Complaint) :
    cursor.Walks (cursor.complain position complaint) := Walks.still.complain position complaint

theorem walks_advance (onToken : start.OnToken) : start.Walks start.advance := Walks.still.advance onToken

theorem OnToken.remaining_pos (onToken : start.OnToken) : 0 < start.remaining := remaining_of_current onToken

theorem remaining_of_end (proper : start.Proper) (atEnd : ¬ start.OnToken) : start.remaining = 0 := by
  rcases tokens : start.stream.tokens with _ | ⟨first, rest⟩
  · exact congrArg List.length tokens
  · refine absurd ?_ atEnd
    unfold OnToken
    rw [current_of_tokens tokens]
    exact (proper first (tokens ▸ List.mem_cons_self)).notEnd

/-- A move on a token takes it off those that are left. -/
theorem OnToken.advance_remaining (onToken : start.OnToken) :
    start.advance.remaining + 1 = start.remaining := by
  rw [Cursor.advance_remaining]
  exact Nat.sub_add_cancel onToken.remaining_pos

/-- Behind a lookahead that is not the end, the current token is not the end. -/
theorem onToken_advance (more : start.lookahead.kind ≠ .endOfFile) : start.advance.OnToken := by
  unfold OnToken
  rw [advance_current]
  exact more

/-- So it is if the lookahead has been asked for. -/
theorem onToken_advance_of_beq {kind : TokenKind} (ahead : (start.lookahead.kind == kind) = true)
    (proper : kind ≠ .endOfFile) : start.advance.OnToken := by
  refine onToken_advance ?_
  rw [eq_of_beq ahead]
  exact proper

theorem notice_moves (cursor : Cursor) (token : Token) : (cursor.notice token).moves = cursor.moves := by
  unfold notice
  split <;> rfl

theorem advance_moves (cursor : Cursor) : cursor.advance.moves = cursor.moves + 1 := notice_moves _ _

/-- Moves and tokens that are left add up to the same number as long as no move is made at the end. -/
theorem advance_moves_add_remaining (proper : start.Proper) :
    start.advance.moves + start.advance.remaining =
      start.moves + start.remaining + if start.currentIs .endOfFile then 1 else 0 := by
  rw [advance_moves]
  split
  · rename_i atEnd
    have none := remaining_of_end proper fun onToken => onToken (beq_iff_eq.mp atEnd)
    rw [Cursor.advance_remaining, none]
  · rename_i notEnd
    have onToken : start.OnToken := fun atEnd => notEnd (beq_iff_eq.mpr atEnd)
    rw [← onToken.advance_remaining]
    omega

theorem Walks.moves_add_remaining (walks : start.Walks last) :
    last.moves + last.remaining = start.moves + start.remaining := by
  induction walks with
  | still => rfl
  | complain _ _ _ inductionHypothesis => exact inductionHypothesis
  | advance _ onToken inductionHypothesis =>
      rw [advance_moves, ← inductionHypothesis, ← onToken.advance_remaining]
      omega

theorem Walks.tokens (walks : start.Walks last) : last.stream.tokens <:+ start.stream.tokens := by
  induction walks with
  | still => exact List.suffix_refl _
  | complain _ _ _ inductionHypothesis => exact inductionHypothesis
  | advance _ _ inductionHypothesis =>
      rw [advance_tokens]
      exact (List.tail_suffix _).trans inductionHypothesis

theorem Walks.remaining_le (walks : start.Walks last) : last.remaining ≤ start.remaining :=
  walks.tokens.length_le

theorem Walks.proper (walks : start.Walks last) (proper : start.Proper) : last.Proper :=
  fun token member => proper token (walks.tokens.subset member)

theorem Walks.reportsAnomalies (walks : start.Walks last) :
    last.reportsAnomalies = start.reportsAnomalies := by
  induction walks with
  | still => rfl
  | complain _ _ _ inductionHypothesis => exact inductionHypothesis
  | advance _ _ inductionHypothesis => exact (notice_reportsAnomalies _ _).trans inductionHypothesis

/-- As many moves as there are tokens are a walk. -/
theorem walks_advanceBy (proper : start.Proper) {count : Nat} (inside : count ≤ start.remaining) :
    start.Walks (start.advanceBy count) := by
  induction count with
  | zero => exact .still
  | succ count inductionHypothesis =>
      refine (inductionHypothesis (Nat.le_of_succ_le inside)).advance ?_
      rcases tokens : (start.advanceBy count).stream.tokens with _ | ⟨first, rest⟩
      · have length := congrArg List.length tokens
        rw [advanceBy_tokens, List.length_drop, List.length_nil] at length
        exact absurd inside (by unfold remaining; omega)
      · unfold OnToken
        rw [current_of_tokens tokens]
        refine (proper first (List.mem_of_mem_drop (i := count) ?_)).notEnd
        rw [← advanceBy_tokens, tokens]
        exact List.mem_cons_self

/-! ## Passing over tokens -/

/-- Moving on to a token that passes a test is to look at the current one, and to go on behind it if it
does not pass. -/
theorem advanceTo_eq {test : TokenKind -> Bool} (atEnd : test .endOfFile = true) :
    start.advanceTo test = if test start.current.kind then start else start.advance.advanceTo test := by
  unfold advanceTo
  rw [advance_tokens]
  rcases tokens : start.stream.tokens with _ | ⟨first, rest⟩
  · rw [current_of_no_tokens tokens, if_pos atEnd]
    rfl
  · rw [current_of_tokens tokens, List.tail_cons]
    cases passes : test first.kind with
    | true =>
        rw [List.takeWhile_cons_of_neg (by simp [passes]), if_pos rfl]
        rfl
    | false =>
        rw [List.takeWhile_cons_of_pos (by simp [passes]), if_neg Bool.false_ne_true, List.length_cons,
          advanceBy_succ]

/-- Moving to the end of the source is to look at the current token, and to go on behind it if it is not
the end. -/
theorem drain_eq (proper : start.Proper) :
    start.drain = if start.currentIs .endOfFile then start else start.advance.drain := by
  unfold drain
  split
  · rename_i atEnd
    rw [remaining_of_end proper fun onToken => onToken (beq_iff_eq.mp atEnd)]
    rfl
  · rename_i notEnd
    have onToken : start.OnToken := fun atEnd => notEnd (beq_iff_eq.mpr atEnd)
    rw [← onToken.advance_remaining, advanceBy_succ]

theorem walks_drain (proper : start.Proper) : start.Walks start.drain :=
  walks_advanceBy proper (Nat.le_refl _)

theorem drain_remaining (cursor : Cursor) : cursor.drain.remaining = 0 := by
  unfold drain
  rw [remaining, advanceBy_tokens, remaining, List.drop_length]
  rfl

/-- A cursor that has walked up to the end of the source has made one move for every token. -/
theorem Walks.moves_of_end (walks : start.Walks last) (fresh : start.moves = 0)
    (atEnd : last.remaining = 0) : last.moves = start.remaining := by
  have sum := walks.moves_add_remaining
  omega

theorem ofStream_moves (stream : TokenStream) (reports : Bool) : (ofStream stream reports).moves = 0 := by
  unfold ofStream
  exact (notice_moves _ _).trans (notice_moves _ _)

end Cursor

namespace Production

variable {start : Cursor} {room lower bound bound' : Nat}

/-! ## Productions side by side -/

/-- Two productions come to the same from a cursor.  They walk there, and where they succeed, they end at
a certain place. -/
structure FollowsTo (place : Cursor -> Prop) (start : Cursor) (result other : Option α × Cursor) :
    Prop where
  same : result = other
  walks : start.Walks result.2
  ends : ∀ value, result.1 = some value -> place result.2

/-- Two productions come to the same from a cursor and end on a token where they succeed. -/
abbrev Follows (start : Cursor) (result other : Option α × Cursor) : Prop :=
  FollowsTo Cursor.OnToken start result other

/-- Two productions come to the same at certain places with fewer tokens left than a number. -/
def AgreesWhere (place : Cursor -> Prop) (room : Nat) (production other : Production α) : Prop :=
  ∀ start : Cursor, place start -> start.remaining < room -> Follows start (production start) (other start)

/-- Two productions come to the same on every token with fewer tokens left than a number. -/
def Agrees (room : Nat) (production other : Production α) : Prop :=
  AgreesWhere Cursor.OnToken room production other

/-- Two productions come to the same wherever fewer tokens are left than a number. -/
def AgreesToEnd (room : Nat) (production other : Production α) : Prop :=
  AgreesWhere (fun _ => True) room production other

theorem AgreesWhere.mono {place : Cursor -> Prop} {production other : Production α}
    (agrees : AgreesWhere place room production other) (below : lower ≤ room) :
    AgreesWhere place lower production other :=
  fun start here fits => agrees start here (Nat.lt_of_lt_of_le fits below)

theorem AgreesToEnd.agrees {production other : Production α} (agrees : AgreesToEnd room production other) :
    Agrees room production other := fun start _ fits => agrees start True.intro fits

variable {place : Cursor -> Prop}

theorem FollowsTo.andThen {first first' : Production α} {next next' : α -> Production β}
    (follows : Follows start (first start) (first' start))
    (goesOn : ∀ value last, last.OnToken -> last.remaining ≤ start.remaining ->
      FollowsTo place last (next value last) (next' value last)) :
    FollowsTo place start ((first >>= next) start) ((first' >>= next') start) := by
  obtain ⟨same, walks, onToken⟩ := follows
  have other : (first' >>= next') start = Production.andThen first' next' start := rfl
  rw [other]
  change FollowsTo place start (Production.andThen first next start) _
  unfold Production.andThen
  rw [← same]
  rcases done : first start with ⟨_ | value, last⟩
  · rw [done] at walks
    exact ⟨rfl, walks, nofun⟩
  · rw [done] at walks onToken
    obtain ⟨same, onward, ends⟩ := goesOn value last (onToken value rfl) walks.remaining_le
    exact ⟨same, walks.trans onward, ends⟩

theorem follows_pure (value : α) (onToken : start.OnToken) :
    Follows start ((pure value : Production α) start) ((pure value : Production α) start) :=
  ⟨rfl, .still, fun _ _ => onToken⟩

theorem follows_reject (complaint : Complaint) :
    Follows start (reject complaint start : Option α × Cursor) (reject complaint start) :=
  ⟨rfl, start.walks_complain _ _, nofun⟩

theorem follows_rejectCurrent (expected : String) :
    Follows start (rejectCurrent expected start : Option α × Cursor) (rejectCurrent expected start) :=
  ⟨rfl, start.walks_complain _ _, nofun⟩

theorem follows_rejectLookahead (expected : String) :
    Follows start (rejectLookahead expected start : Option α × Cursor) (rejectLookahead expected start) :=
  ⟨rfl, start.walks_complain _ _, nofun⟩

/-- What is read behind a move on a token follows from there. -/
theorem follows_advance {result other : Option α × Cursor} (onToken : start.OnToken)
    (follows : FollowsTo place start.advance result other) : FollowsTo place start result other :=
  ⟨follows.same, (Cursor.walks_advance onToken).trans follows.walks, follows.ends⟩

theorem walks_expect (kind : TokenKind) (onToken : start.OnToken) : start.Walks (expect kind start).2 := by
  by_cases here : start.lookahead.kind = kind
  · rw [expect_eq_some.mpr ⟨here, rfl⟩]
    exact Cursor.walks_advance onToken
  · rw [expect_of_ne here]
    exact start.walks_complain _ _

/-- A required token is missed, or what is read behind it has fewer tokens left. -/
theorem follows_expect {kind : TokenKind} (proper : kind ≠ .endOfFile) (onToken : start.OnToken)
    {next next' : Unit -> Production α}
    (goesOn : ∀ last : Cursor, last.OnToken -> last.remaining < start.remaining ->
      FollowsTo place last (next () last) (next' () last)) :
    FollowsTo place start ((expect kind >>= next) start) ((expect kind >>= next') start) := by
  by_cases here : start.lookahead.kind = kind
  · have moved : expect kind start = (some (), start.advance) := expect_eq_some.mpr ⟨here, rfl⟩
    rw [andThen_eq moved, andThen_eq moved]
    refine follows_advance onToken (goesOn _ (Cursor.onToken_advance (here ▸ proper)) ?_)
    have fewer := onToken.advance_remaining
    omega
  · rw [andThen_of_none (expect_of_ne here), andThen_of_none (expect_of_ne here)]
    exact ⟨rfl, start.walks_complain _ _, nofun⟩

/-- The literal of a required token. -/
theorem follows_expectLiteral {kind : TokenKind} (proper : kind ≠ .endOfFile) (onToken : start.OnToken) :
    Follows start (expectLiteral kind start) (expectLiteral kind start) :=
  follows_expect proper onToken fun _ onToken _ => follows_pure _ onToken

/-- Two bounds are enough for a number of tokens if they are the same or both reach it. -/
def Enough (room bound bound' : Nat) : Prop := bound = bound' ∨ room ≤ bound ∧ room ≤ bound'

theorem Enough.mono (enough : Enough room bound bound') (below : lower ≤ room) :
    Enough lower bound bound' :=
  enough.imp_right fun both => ⟨below.trans both.1, below.trans both.2⟩

/-- With one bound there is one round less, and room for one token less. -/
theorem Enough.pred (enough : Enough room (bound + 1) (bound' + 1)) (fits : lower < room) :
    Enough lower bound bound' := by
  unfold Enough at *
  omega

/-- A bounded repetition agrees with itself under another bound if each of its rounds does, given that the
next round agrees wherever fewer tokens are left. -/
theorem agrees_of_rounds {ι : Type} {place : Cursor -> Prop} (loop loop' : Nat -> ι -> Production α)
    (exhausted : ∀ index start, Follows start (loop 0 index start) (loop' 0 index start))
    (step : ∀ bound bound' index start, place start -> start.remaining < room ->
      Enough start.remaining bound bound' ->
      (∀ index, AgreesWhere place start.remaining (loop bound index) (loop' bound' index)) ->
        Follows start (loop (bound + 1) index start) (loop' (bound' + 1) index start))
    (enough : Enough room bound bound') (index : ι) :
    AgreesWhere place room (loop bound index) (loop' bound' index) := by
  have within : ∀ lower, lower ≤ room -> Enough lower bound bound' -> ∀ index,
      AgreesWhere place lower (loop bound index) (loop' bound' index) := by
    clear enough index
    induction bound generalizing bound' with
    | zero =>
        intro lower _ enough index start _ fits
        rcases enough with rfl | ⟨none, -⟩
        · exact exhausted index start
        · exact absurd fits (Nat.not_lt.mpr (none.trans (Nat.zero_le _)))
    | succ bound inductionHypothesis =>
        intro lower below enough index start here fits
        cases bound' with
        | zero =>
            rcases enough with same | ⟨-, none⟩
            · cases same
            · exact absurd fits (Nat.not_lt.mpr (none.trans (Nat.zero_le _)))
        | succ bound' =>
            have less := enough.pred fits
            exact step bound bound' index start here (Nat.lt_of_lt_of_le fits below) less
              (inductionHypothesis _ (fits.le.trans below) less)
  exact within room (Nat.le_refl _) enough index

/-- A round that hands on to what comes next only where it has moved on: what comes next may be anything
else that does the same wherever fewer tokens are left. -/
def Progressive (round : Production α -> Production α) : Prop :=
  ∀ (start : Cursor) (next other : Production α), start.OnToken ->
    AgreesToEnd start.remaining next other -> round next start = round other start

/-- A bounded production goes round by round, and no round starts the next one without having moved on. -/
def RunsInRounds (loop : Nat -> Production α) (round : Nat -> Production α -> Production α) : Prop :=
  (∀ bound, loop (bound + 1) = round bound (loop bound)) ∧ ∀ bound, Progressive (round bound)

end Production

/-! ## Line-oriented sources -/

/-- A cursor of a line-oriented source. -/
structure Cursor.ReadsLines (cursor : Cursor) : Prop where
  trusting : cursor.reportsAnomalies = false
  shown : OnlyNewlinesEnd cursor.stream.tokens
  proper : cursor.Proper

theorem Cursor.Walks.readsLines {start last : Cursor} (walks : start.Walks last)
    (reads : start.ReadsLines) : last.ReadsLines :=
  ⟨walks.reportsAnomalies.trans reads.trusting,
    fun token member => reads.shown token (walks.tokens.subset member), walks.proper reads.proper⟩

theorem readsLines_stream (dialect : Dialect) (source : String) :
    (Cursor.ofStream ((lineReading dialect).stream source) false).ReadsLines := by
  refine ⟨(Cursor.quiet_ofStream _).trusting, ?_, ?_⟩
  · rw [Cursor.ofStream_stream]
    exact onlyNewlinesEnd_stream dialect source
  · unfold Cursor.Proper
    rw [Cursor.ofStream_stream]
    exact Reading.proper_stream _ source

/-- What a round does that does not end the reading: it walks on to fewer tokens, and adds items. -/
def MovesOn (item : Production α) (cursor behind : Cursor) (added : Array (Located α)) : Prop :=
  cursor.Walks behind ∧ behind.remaining < cursor.remaining ∧
    ∀ rounds items,
      readItems item (rounds + 1) cursor items = readItems item rounds behind (items ++ added)

variable {item : Production α} {cursor : Cursor}

/-- A round that does not begin at the end of the source moves on. -/
theorem exists_movesOn (keeps : item.KeepsToLine) (reads : cursor.ReadsLines) (onToken : cursor.OnToken) :
    ∃ behind added, MovesOn item cursor behind added := by
  by_cases starts : cursor.current.kind.endsLine = false
  · obtain ⟨line, wellFormed, stands, -⟩ := cursor.exists_line reads.trusting reads.shown starts
    have long := List.length_pos_iff.mpr wellFormed.nonempty
    have fewer : (cursor.advanceBy line.tokens.length).remaining < cursor.remaining :=
      cursor.length_advanceBy long stands.length_le (Nat.lt_succ_self _)
    have walks := Cursor.walks_advanceBy reads.proper stands.length_le
    rcases readItems_line keeps wellFormed stands 0 #[] with
      ⟨value, verdict, -⟩ | ⟨found, verdict, -⟩
    · refine ⟨_, #[⟨value, line.number⟩], walks, fewer, fun rounds items => ?_⟩
      rcases readItems_line keeps wellFormed stands rounds items with
        ⟨other, same, step⟩ | ⟨found, same, -⟩
      · cases verdict.symm.trans same
        rw [step, Array.push_eq_append]
      · cases verdict.symm.trans same
    · refine ⟨_, #[], walks.complain found.position found.complaint, fewer, fun rounds items => ?_⟩
      rcases readItems_line keeps wellFormed stands rounds items with
        ⟨value, same, -⟩ | ⟨other, same, step⟩
      · cases verdict.symm.trans same
      · cases verdict.symm.trans same
        rw [step, Array.append_empty]
  · rcases tokens : cursor.stream.tokens with _ | ⟨newline, rest⟩
    · exact absurd (Cursor.current_of_no_tokens tokens) onToken
    · have isNewline : newline.kind = .newline := by
        rw [Cursor.current_of_tokens tokens] at starts
        exact reads.shown newline (tokens ▸ List.mem_cons_self) (eq_true_of_ne_false starts)
      have fewer := onToken.advance_remaining
      refine ⟨cursor.advance, #[], Cursor.walks_advance onToken, by omega, fun rounds items => ?_⟩
      rw [readItems_newline isNewline tokens, Array.append_empty]
      rfl

/-- Where enough rounds are left, a source is read up to its end, and it does not matter how many are. -/
theorem exists_readItems_eq (keeps : item.KeepsToLine) (reads : cursor.ReadsLines) :
    ∃ last added, cursor.Walks last ∧ last.remaining = 0 ∧
      ∀ rounds, cursor.remaining < rounds -> ∀ items,
        readItems item rounds cursor items = (items ++ added, last) := by
  induction left : cursor.remaining using Nat.strongRecOn generalizing cursor with
  | ind remaining inductionHypothesis =>
      by_cases onToken : cursor.OnToken
      · obtain ⟨behind, first, walks, fewer, step⟩ := exists_movesOn keeps reads onToken
        obtain ⟨last, others, onward, atEnd, same⟩ :=
          inductionHypothesis behind.remaining (left ▸ fewer) (walks.readsLines reads) rfl
        refine ⟨last, first ++ others, walks.trans onward, atEnd, fun rounds enough items => ?_⟩
        obtain ⟨rounds, rfl⟩ := Nat.exists_eq_succ_of_ne_zero (Nat.ne_zero_of_lt enough)
        rw [step, same rounds (by omega), Array.append_assoc]
      · have none := Cursor.remaining_of_end reads.proper onToken
        refine ⟨cursor, #[], .still, none, fun rounds enough items => ?_⟩
        obtain ⟨rounds, rfl⟩ := Nat.exists_eq_succ_of_ne_zero (Nat.ne_zero_of_lt enough)
        rw [readItems_end (List.length_eq_zero_iff.mp none), Array.append_empty]

/-- The cursor at the beginning of a line-oriented source. -/
def startOfLines (dialect : Dialect) (source : String) : Cursor :=
  .ofStream ((lineReading dialect).stream source) false

/-- Reading a source line by line makes progress: more rounds than there are tokens make no difference; the
cursor walks to the end of the source, with one move for every token; every round ends the reading at the
end of the source or moves on; and to pass over the rest of a line is to move on until a token ends it. -/
structure LinesMakeProgress (dialect : Dialect) (item : Production α) (source : String) : Prop where
  bounded : ∀ rounds, (startOfLines dialect source).remaining < rounds ->
    readItems item rounds (startOfLines dialect source) #[] = runLines dialect item source
  walks : (startOfLines dialect source).Walks (runLines dialect item source).2
  moves : (runLines dialect item source).2.moves = ((lineReading dialect).stream source).tokens.length
  rounds : ∀ cursor, (startOfLines dialect source).Walks cursor ->
    cursor.currentIs .endOfFile = true ∧
        (∀ rounds items, readItems item (rounds + 1) cursor items = (items, cursor)) ∨
      ∃ behind added, MovesOn item cursor behind added
  skips : ∀ cursor, (startOfLines dialect source).Walks cursor ->
    cursor.advanceTo TokenKind.endsLine = if cursor.current.kind.endsLine then cursor
      else cursor.advance.advanceTo TokenKind.endsLine

theorem linesMakeProgress (dialect : Dialect) (keeps : item.KeepsToLine) (source : String) :
    LinesMakeProgress dialect item source := by
  have reads : (startOfLines dialect source).ReadsLines := readsLines_stream dialect source
  obtain ⟨last, added, walks, atEnd, same⟩ := exists_readItems_eq keeps reads
  have run : runLines dialect item source = (#[] ++ added, last) := same _ (Nat.lt_succ_self _) #[]
  refine ⟨?bounded, ?walks, ?moves, ?rounds, fun cursor _ => Cursor.advanceTo_eq rfl⟩
  case bounded =>
    intro rounds enough
    rw [run, same rounds enough]
  case walks =>
    rw [run]
    exact walks
  case moves =>
    rw [run, walks.moves_of_end (Cursor.ofStream_moves _ _) atEnd, startOfLines, Cursor.remaining,
      Cursor.ofStream_stream]
  case rounds =>
    intro cursor onward
    by_cases onToken : cursor.OnToken
    · exact .inr (exists_movesOn keeps (onward.readsLines reads) onToken)
    · have none := Cursor.remaining_of_end (onward.readsLines reads).proper onToken
      exact .inl ⟨beq_iff_eq.mpr (Classical.not_not.mp onToken),
        readItems_end (List.length_eq_zero_iff.mp none)⟩

end HackToolchain
