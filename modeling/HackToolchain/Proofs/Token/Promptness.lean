import HackToolchain.Proofs.Token.Complaints

namespace HackToolchain

/-!
# Prompt productions

A production is prompt if it refuses a token as soon as nothing can follow that begins with it.  Where
it refuses one, what it has passed could still have been completed, and with the refused token it could
not.  Both are said with other cursors: the production is set on one that has the same tokens ahead as
far as they have been looked at.

So a prompt production answers for the tokens that it has passed and for one more, wherever it meets
them.  That one token matters only as far as the production might have gone on with it, and it may be
exchanged for any other that it stops at.

A production may also come to its bound.  The bound that was given to the other cursor need not be the
same, so a whole family of productions is looked at, one for each bound.
-/

/-- The class of the first of some tokens, or of the end of the source if there are none. -/
def kindAhead (tokens : List Token) : TokenKind := (tokens.head?.map Token.kind).getD .endOfFile

/-- The place of the first of some tokens, or of the end of the source if there are none. -/
def placeAhead (tokens : List Token) (finish : Position) : Position :=
  (tokens.head?.map Token.position).getD finish

namespace TokenStream

theorem head_kind (stream : TokenStream) : stream.head.kind = kindAhead stream.tokens := by
  rcases stream with ⟨_ | ⟨token, rest⟩, finish⟩ <;> rfl

theorem head_position (stream : TokenStream) :
    stream.head.position = placeAhead stream.tokens stream.finish := by
  rcases stream with ⟨_ | ⟨token, rest⟩, finish⟩ <;> rfl

/-- The ends of two sources differ in nothing but their places. -/
theorem head_literal {stream other : TokenStream} (same : other.tokens.head? = stream.tokens.head?) :
    other.head.literal = stream.head.literal := by
  rcases stream with ⟨_ | ⟨token, rest⟩, finish⟩ <;> rcases other with ⟨_ | ⟨first, others⟩, ending⟩
  · rfl
  · cases same
  · cases same
  · cases same
    rfl

end TokenStream

namespace Cursor

variable {start other : Cursor} {passed behind : List Token}

/-! ## Moving over tokens -/

theorem current_kind (start : Cursor) : start.current.kind = kindAhead start.stream.tokens :=
  start.stream.head_kind

theorem tokens_of_current (notEnd : start.current.kind ≠ .endOfFile) :
    start.stream.tokens = start.current :: start.stream.tokens.tail := by
  cases tokens : start.stream.tokens with
  | nil =>
      rw [current_kind, tokens] at notEnd
      exact absurd rfl notEnd
  | cons token rest => rw [current_of_tokens tokens, List.tail_cons]

theorem lookahead_kind (start : Cursor) :
    start.lookahead.kind = kindAhead start.stream.tokens.tail := start.stream.tail.head_kind

theorem lookahead_position (start : Cursor) :
    start.lookahead.position = placeAhead start.stream.tokens.tail start.stream.finish :=
  start.stream.tail.head_position

theorem lookahead_kind_congr (same : other.stream.tokens.tail.head? = start.stream.tokens.tail.head?) :
    other.lookahead.kind = start.lookahead.kind := by
  rw [lookahead_kind, lookahead_kind, kindAhead, same]
  rfl

theorem lookahead_literal_congr
    (same : other.stream.tokens.tail.head? = start.stream.tokens.tail.head?) :
    other.lookahead.literal = start.lookahead.literal :=
  TokenStream.head_literal same

theorem advanceBy_tail (ahead : start.stream.tokens.tail = passed ++ behind) :
    (start.advanceBy passed.length).stream.tokens.tail = behind := by
  induction passed generalizing start with
  | nil => exact ahead
  | cons token rest inductionHypothesis =>
      rw [List.length_cons, advanceBy_succ]
      apply inductionHypothesis
      rw [advance_tokens, ahead]
      rfl

/-- Behind some tokens the last of them is the current one. -/
theorem advanceBy_current (ahead : start.stream.tokens.tail = passed ++ behind) :
    (start.advanceBy passed.length).current = passed.getLastD start.current := by
  induction passed generalizing start with
  | nil => rfl
  | cons token rest inductionHypothesis =>
      have moved : start.advance.stream.tokens.tail = rest ++ behind := by
        rw [advance_tokens, ahead]
        rfl
      rw [List.length_cons, advanceBy_succ, inductionHypothesis moved, advance_current,
        lookahead_of_tokens ahead, List.getLastD_cons]

end Cursor

namespace Production

variable {start : Cursor} {ι κ : Type}

/-! ## Meeting the same tokens -/

/-- The production comes to its bound. -/
def Halts (production : Production α) (start : Cursor) : Prop :=
  ∃ count, production start = (none, start.advanceBy count)

/-- The production answers a value and passes so many tokens, unless it comes to its bound. -/
def Yields (production : Production α) (start : Cursor) (value : α) (count : Nat) : Prop :=
  production start = (some value, start.advanceBy count) ∨ Halts production start

/-- What has been passed can be completed: tokens can follow with which every production of the family
answers one and the same value, if it stops at the token behind them.  Where nothing has been passed,
the tokens begin as they should. -/
inductive Completed (begins stops : TokenKind -> Prop) (current : Token) (passed : List Token)
    (family : ι -> Production α) : Prop
  | intro (value : α) (more : List Token) (proper : ∀ token ∈ more, token.Proper)
      (edge : passed = [] -> ∀ later, stops (kindAhead later) -> begins (kindAhead (more ++ later)))
      (yields : ∀ index (other : Cursor) later, other.current = current ->
        other.stream.tokens.tail = passed ++ (more ++ later) -> stops (kindAhead later) ->
        Yields (family index) other value (passed.length + more.length))

/-- Every production of the family answers the value for the tokens that are passed, wherever it meets
them.  The token behind them may be exchanged for one that the productions stop at. -/
structure Answers (begins stops : TokenKind -> Prop) (start : Cursor) (family : ι -> Production α)
    (value : α) (passed behind : List Token) : Prop where
  ahead : start.stream.tokens.tail = passed ++ behind
  edge : passed = [] -> ∀ kind, stops kind -> begins kind
  again : ∀ index (other : Cursor) later, other.current = start.current ->
    other.stream.tokens.tail = passed ++ later ->
    later.head? = behind.head? ∨ stops (kindAhead later) ->
    Yields (family index) other value passed.length

/-- No production of the family answers where it meets the tokens that are passed and the one behind
them. -/
structure Refuses (start : Cursor) (family : ι -> Production α) (passed behind : List Token) :
    Prop where
  ahead : start.stream.tokens.tail = passed ++ behind
  again : ∀ index (other : Cursor) later, other.current = start.current ->
    other.stream.tokens.tail = passed ++ later -> later.head? = behind.head? ->
    (family index other).1 = none

/-- What became of a reading: some tokens have been passed, or the token behind them has been refused
although they could be completed, or the bound has been reached. -/
inductive Verdict (begins stops : TokenKind -> Prop) (start : Cursor) (family : ι -> Production α)
    (result : Option α × Cursor) : Prop
  | answers (value : α) (passed behind : List Token)
      (same : result = (some value, start.advanceBy passed.length))
      (answers : Answers begins stops start family value passed behind)
  | refuses (passed behind : List Token) (count : Nat) (complaint : Complaint)
      (same : result = (none,
        (start.advanceBy count).complain (placeAhead behind start.stream.finish) complaint))
      (aboutGrammar : ∀ token, complaint ≠ .anomaly token)
      (refuses : Refuses start family passed behind)
      (completed : Completed begins stops start.current passed family)
  | halts (count : Nat) (same : result = (none, start.advanceBy count))

/-- A production is prompt, judged by a family: what it refuses has no completion in the family, and
what it has passed has one.  The tokens of a completion begin with one class of tokens, and behind them
stands one of another class. -/
structure Prompt (begins stops : TokenKind -> Prop) (production : Production α)
    (family : ι -> Production α) : Prop where
  verdict : ∀ start, Verdict begins stops start family (production start)
  completed : ∀ current, Completed begins stops current [] family

/-! ## Sequences -/

section Sequences

variable {first : Production α} {next : α -> Production β}

theorem none_andThen (refused : (first start).1 = none) : ((first >>= next) start).1 = none :=
  congrArg Prod.fst (andThen_of_none (Prod.ext refused rfl))

theorem Halts.andThen (halts : Halts first start) : Halts (first >>= next) start := by
  rcases halts with ⟨count, halts⟩
  exact ⟨count, andThen_of_none halts⟩

theorem Halts.behind {read : α} {count : Nat}
    (done : first start = (some read, start.advanceBy count))
    (halts : Halts (next read) (start.advanceBy count)) : Halts (first >>= next) start := by
  rcases halts with ⟨others, halts⟩
  exact ⟨count + others, by rw [andThen_eq done, halts, Cursor.advanceBy_add]⟩

theorem Yields.andThen {read : α} {value : β} {count others : Nat}
    (begun : Yields first start read count)
    (goesOn : Yields (next read) (start.advanceBy count) value others) :
    Yields (first >>= next) start value (count + others) := by
  rcases begun with done | halts
  · rcases goesOn with all | halts
    · exact .inl (by rw [andThen_eq done, all, Cursor.advanceBy_add])
    · exact .inr (halts.behind done)
  · exact .inr halts.andThen

theorem Yields.none_behind {read : α} {count : Nat} (begun : Yields first start read count)
    (refused : (next read (start.advanceBy count)).1 = none) : ((first >>= next) start).1 = none := by
  rcases begun with done | ⟨others, halts⟩
  · rw [andThen_eq done]
    exact refused
  · exact none_andThen (by rw [halts])

variable {firsts : ι -> Production α} {nexts : ι -> α -> Production β}
  {begins between stops : TokenKind -> Prop} {read : α} {passed others rest : List Token}

/-- A completion of the first is gone on with by one of the next. -/
theorem Completed.andThen {current : Token}
    (completed : Completed begins between current passed firsts)
    (goesOn : ∀ value current, Completed between stops current [] fun index => nexts index value) :
    Completed begins stops current passed fun index => firsts index >>= nexts index := by
  rcases completed with ⟨read, more, proper, edge, yields⟩
  rcases goesOn read ((passed ++ more).getLastD current) with
    ⟨value, others, properOthers, edgeOthers, yieldsOthers⟩
  refine ⟨value, more ++ others, ?_, ?_, ?_⟩
  · intro token member
    exact (List.mem_append.mp member).elim (proper token) (properOthers token)
  · intro nothing later stop
    rw [List.append_assoc]
    exact edge nothing _ (edgeOthers rfl later stop)
  · intro index other later same ahead stop
    rw [List.append_assoc] at ahead
    have begun := yields index other (others ++ later) same ahead (edgeOthers rfl later stop)
    rw [← List.append_assoc] at ahead
    have goesOn := yieldsOthers index (other.advanceBy (passed ++ more).length) later
      (by rw [Cursor.advanceBy_current ahead, same]) (Cursor.advanceBy_tail ahead) stop
    rw [List.length_append] at goesOn ⊢
    rw [← Nat.add_assoc]
    have both := begun.andThen goesOn
    rwa [List.length_nil, Nat.zero_add] at both

/-- Behind the first, another cursor meets what the next has been tried on. -/
theorem Answers.met (answers : Answers begins between start firsts read passed (others ++ rest))
    {other : Cursor} {later : List Token} (alike : other.current = start.current)
    (met : other.stream.tokens.tail = passed ++ later) :
    (other.advanceBy passed.length).current = (start.advanceBy passed.length).current ∧
      (other.advanceBy passed.length).stream.tokens.tail = later := by
  refine ⟨?_, Cursor.advanceBy_tail met⟩
  rw [Cursor.advanceBy_current met, Cursor.advanceBy_current answers.ahead, alike]

/-- The first answers again if the next has been started, or starts as it should. -/
theorem Answers.goesOn (answers : Answers begins between start firsts read passed (others ++ rest))
    {index : ι} {other : Cursor} {later : List Token} (alike : other.current = start.current)
    (met : other.stream.tokens.tail = passed ++ (others ++ later))
    (last : others = [] -> later.head? = rest.head? ∨ between (kindAhead later)) :
    Yields (firsts index) other read passed.length := by
  refine answers.again index other (others ++ later) alike met ?_
  cases others with
  | nil => exact last rfl
  | cons token others => exact .inl rfl

theorem Answers.andThen {value : β}
    (answers : Answers begins between start firsts read passed (others ++ rest))
    (behind : Answers between stops (start.advanceBy passed.length) (fun index => nexts index read)
      value others rest) :
    Answers begins stops start (fun index => firsts index >>= nexts index) value (passed ++ others)
      rest := by
  refine ⟨answers.ahead.trans (List.append_assoc ..).symm, ?_, ?_⟩
  · intro nothing kind stop
    rcases List.append_eq_nil_iff.mp nothing with ⟨none, noOthers⟩
    exact answers.edge none kind (behind.edge noOthers kind stop)
  · intro index other later alike met last
    rw [List.append_assoc] at met
    rcases answers.met alike met with ⟨current, left⟩
    have begun : Yields (firsts index) other read passed.length :=
      answers.goesOn alike met fun noOthers => last.imp id (behind.edge noOthers _)
    rw [List.length_append]
    exact begun.andThen (behind.again index _ later current left last)

theorem Answers.refuses (answers : Answers begins between start firsts read passed (others ++ rest))
    (behind : Refuses (start.advanceBy passed.length) (fun index => nexts index read) others rest) :
    Refuses start (fun index => firsts index >>= nexts index) (passed ++ others) rest := by
  refine ⟨answers.ahead.trans (List.append_assoc ..).symm, ?_⟩
  intro index other later alike met refused
  rw [List.append_assoc] at met
  rcases answers.met alike met with ⟨current, left⟩
  have begun : Yields (firsts index) other read passed.length :=
    answers.goesOn alike met fun _ => .inl refused
  exact begun.none_behind (behind.again index _ later current left refused)

theorem Answers.completed (answers : Answers begins between start firsts read passed (others ++ rest))
    (behind : Completed between stops (start.advanceBy passed.length).current others
      fun index => nexts index read) :
    Completed begins stops start.current (passed ++ others)
      fun index => firsts index >>= nexts index := by
  rcases behind with ⟨value, more, proper, edge, yields⟩
  refine ⟨value, more, proper, ?_, ?_⟩
  · intro nothing later stop
    rcases List.append_eq_nil_iff.mp nothing with ⟨none, noOthers⟩
    exact answers.edge none _ (edge noOthers later stop)
  · intro index other later alike met stop
    rw [List.append_assoc] at met
    rcases answers.met alike met with ⟨current, left⟩
    have begun : Yields (firsts index) other read passed.length :=
      answers.goesOn alike met fun noOthers => .inr (edge noOthers later stop)
    rw [List.length_append, Nat.add_assoc]
    exact begun.andThen (yields index _ later current left stop)

/-- A sequence is refused where one of its parts is.  If the first has answered, the next goes on from
the tokens that the first has passed; if the first refuses, any completion of it is gone on with. -/
theorem Verdict.andThen (verdict : Verdict begins between start firsts (first start))
    (goesOn : ∀ value, Prompt between stops (next value) fun index => nexts index value) :
    Verdict begins stops start (fun index => firsts index >>= nexts index)
      ((first >>= next) start) := by
  cases verdict with
  | answers read passed behind same answers =>
      have place := Cursor.advanceBy_tail answers.ahead
      rw [andThen_eq same]
      cases (goesOn read).verdict (start.advanceBy passed.length) with
      | answers value others rest all behindFirst =>
          cases place.symm.trans behindFirst.ahead
          refine .answers value (passed ++ others) rest ?_ (answers.andThen behindFirst)
          rw [all, List.length_append, Cursor.advanceBy_add]
      | refuses others rest count complaint all aboutGrammar behindFirst completed =>
          cases place.symm.trans behindFirst.ahead
          refine .refuses (passed ++ others) rest (passed.length + count) complaint ?_ aboutGrammar
            (answers.refuses behindFirst) (answers.completed completed)
          rw [all, Cursor.advanceBy_add, Cursor.advanceBy_finish]
      | halts count all => exact .halts (passed.length + count) (by rw [all, Cursor.advanceBy_add])
  | refuses passed behind count complaint same aboutGrammar refuses completed =>
      refine .refuses passed behind count complaint (andThen_of_none same) aboutGrammar ?_
        (completed.andThen fun value => (goesOn value).completed)
      exact ⟨refuses.ahead, fun index other later alike met refused =>
        none_andThen (refuses.again index other later alike met refused)⟩
  | halts count same => exact .halts count (andThen_of_none same)

theorem Prompt.andThen (prompt : Prompt begins between first firsts)
    (goesOn : ∀ value, Prompt between stops (next value) fun index => nexts index value) :
    Prompt begins stops (first >>= next) fun index => firsts index >>= nexts index :=
  ⟨fun start => (prompt.verdict start).andThen goesOn,
    fun current => (prompt.completed current).andThen fun value => (goesOn value).completed⟩

end Sequences

/-! ## Other families -/

section Families

variable {production : Production α} {family : ι -> Production α} {outer : κ -> Production α}
  {begins stops : TokenKind -> Prop} {result : Option α × Cursor} {passed behind : List Token}

/-- Every production of one family is one of another, or comes to its bound. -/
def Unfolds (outer : κ -> Production α) (family : ι -> Production α) : Prop :=
  ∀ index, (∃ own, outer index = family own) ∨ ∀ start, Halts (outer index) start

theorem Yields.unfold (unfolds : Unfolds outer family) {value : α} {count : Nat}
    (yields : ∀ index, Yields (family index) start value count) (index : κ) :
    Yields (outer index) start value count := by
  rcases unfolds index with ⟨own, same⟩ | halts
  · exact same ▸ yields own
  · exact .inr (halts start)

theorem Completed.unfold {current : Token} (completed : Completed begins stops current passed family)
    (unfolds : Unfolds outer family) : Completed begins stops current passed outer := by
  rcases completed with ⟨value, more, proper, edge, yields⟩
  exact ⟨value, more, proper, edge, fun index other later alike ahead stop =>
    .unfold unfolds (fun own => yields own other later alike ahead stop) index⟩

theorem Verdict.unfold (verdict : Verdict begins stops start family result)
    (unfolds : Unfolds outer family) : Verdict begins stops start outer result := by
  cases verdict with
  | answers value passed behind same answers =>
      exact .answers value passed behind same ⟨answers.ahead, answers.edge,
        fun index other later alike met last =>
          .unfold unfolds (fun own => answers.again own other later alike met last) index⟩
  | refuses passed behind count complaint same aboutGrammar refuses completed =>
      refine .refuses passed behind count complaint same aboutGrammar ⟨refuses.ahead, ?_⟩
        (completed.unfold unfolds)
      intro index other later alike met refused
      rcases unfolds index with ⟨own, same⟩ | halts
      · exact same ▸ refuses.again own other later alike met refused
      · rcases halts other with ⟨count, halts⟩
        rw [halts]
  | halts count same => exact .halts count same

theorem Prompt.unfold (prompt : Prompt begins stops production family)
    (unfolds : Unfolds outer family) : Prompt begins stops production outer :=
  ⟨fun start => (prompt.verdict start).unfold unfolds,
    fun current => (prompt.completed current).unfold unfolds⟩

theorem unfolds_reindex (family : ι -> Production α) (own : κ -> ι) :
    Unfolds (fun index => family (own index)) family := fun index => .inl ⟨own index, rfl⟩

theorem Prompt.reindex (prompt : Prompt begins stops production family) (own : κ -> ι) :
    Prompt begins stops production fun index => family (own index) :=
  prompt.unfold (unfolds_reindex family own)

/-- A family by bounds, from the productions whose bound is not used up. -/
theorem unfolds_bounds {outer inner : Nat -> Production α} (halts : ∀ start, Halts (outer 0) start)
    (step : ∀ bound, outer (bound + 1) = inner bound) : Unfolds outer inner
  | 0 => .inr halts
  | bound + 1 => .inl ⟨bound, step bound⟩

/-- A family by bounds and rounds, from the productions whose rounds are not used up. -/
theorem unfolds_rounds {outer inner : ι × Nat -> Production α}
    (halts : ∀ index start, Halts (outer (index, 0)) start)
    (step : ∀ index rounds, outer (index, rounds + 1) = inner (index, rounds)) : Unfolds outer inner
  | (index, 0) => .inr (halts index)
  | (index, rounds + 1) => .inl ⟨(index, rounds), step index rounds⟩

end Families

/-! ## Choices -/

section Choices

variable {production : Production α} {family inner : ι -> Production α}
  {begins stops before fits : TokenKind -> Prop} {result : Option α × Cursor}
  {passed behind : List Token}

theorem fits_kindAhead {later : List Token}
    (front : ∀ token rest, passed = token :: rest -> fits token.kind)
    (nothing : passed = [] -> fits (kindAhead later)) : fits (kindAhead (passed ++ later)) := by
  cases passed with
  | nil => exact nothing rfl
  | cons token rest => exact front token rest rfl

/-- A completion of one choice is one of the whole, if the tokens are met for which that choice is
taken. -/
theorem Completed.within {current : Token}
    (completed : Completed before stops current passed inner)
    (only : ∀ kind, before kind -> fits kind ∧ begins kind)
    (front : ∀ token rest, passed = token :: rest -> fits token.kind)
    (taken : ∀ index (other : Cursor), other.current = current -> fits other.lookahead.kind ->
      family index other = inner index other) :
    Completed begins stops current passed family := by
  rcases completed with ⟨value, more, proper, edge, yields⟩
  refine ⟨value, more, proper, fun nothing later stop => (only _ (edge nothing later stop)).2, ?_⟩
  intro index other later alike ahead stop
  have met : fits other.lookahead.kind := by
    rw [Cursor.lookahead_kind, ahead]
    exact fits_kindAhead front fun nothing => (only _ (edge nothing later stop)).1
  have done := yields index other later alike ahead stop
  unfold Yields Halts at done ⊢
  rw [taken index other alike met]
  exact done

/-- What completes one choice from its first token on completes the whole, if the tokens that it begins
with are those for which that choice is taken. -/
theorem Completed.taken {current : Token} (completed : Completed before stops current [] inner)
    (only : ∀ kind, before kind -> fits kind ∧ begins kind)
    (taken : ∀ index (other : Cursor), other.current = current -> fits other.lookahead.kind ->
      family index other = inner index other) :
    Completed begins stops current [] family :=
  completed.within only nofun taken

/-- The verdict of one choice is that of the whole, if the choice is the one that is taken. -/
theorem Verdict.within (verdict : Verdict before stops start inner result)
    (here : fits start.lookahead.kind) (only : ∀ kind, before kind -> fits kind ∧ begins kind)
    (taken : ∀ index (other : Cursor), other.current = start.current -> fits other.lookahead.kind ->
      family index other = inner index other) :
    Verdict begins stops start family result := by
  rw [Cursor.lookahead_kind] at here
  -- The first of the tokens that have been passed is the one for which the choice is taken.
  have front {passed behind : List Token} (ahead : start.stream.tokens.tail = passed ++ behind)
      (token : Token) (rest : List Token) (some : passed = token :: rest) : fits token.kind := by
    rw [ahead, some] at here
    exact here
  cases verdict with
  | answers value passed behind same answers =>
      refine .answers value passed behind same ⟨answers.ahead,
        fun nothing kind stop => (only kind (answers.edge nothing kind stop)).2, ?_⟩
      intro index other later alike met last
      have meets : fits other.lookahead.kind := by
        rw [Cursor.lookahead_kind, met]
        refine fits_kindAhead (front answers.ahead) fun nothing => ?_
        rcases last with same | stop
        · rw [answers.ahead, nothing] at here
          rw [kindAhead, same]
          exact here
        · exact (only _ (answers.edge nothing _ stop)).1
      have done := answers.again index other later alike met last
      unfold Yields Halts at done ⊢
      rw [taken index other alike meets]
      exact done
  | refuses passed behind count complaint same aboutGrammar refuses completed =>
      refine .refuses passed behind count complaint same aboutGrammar ⟨refuses.ahead, ?_⟩
        (completed.within only (front refuses.ahead) taken)
      intro index other later alike met refused
      have meets : fits other.lookahead.kind := by
        rw [Cursor.lookahead_kind, met]
        refine fits_kindAhead (front refuses.ahead) fun nothing => ?_
        rw [refuses.ahead, nothing] at here
        rw [kindAhead, refused]
        exact here
      rw [taken index other alike meets]
      exact refuses.again index other later alike met refused
  | halts count same => exact .halts count same

theorem Prompt.widen (prompt : Prompt before stops production family)
    (wide : ∀ kind, before kind -> begins kind) : Prompt begins stops production family := by
  have both (kind : TokenKind) (begin : before kind) : True ∧ begins kind :=
    ⟨True.intro, wide kind begin⟩
  exact ⟨fun start => (prompt.verdict start).within True.intro both fun _ _ _ _ => rfl,
    fun current => (prompt.completed current).taken both fun _ _ _ _ => rfl⟩

/-- A production that goes by the current token. -/
theorem Prompt.current {next : Token -> Production α} {nexts : ι -> Token -> Production α}
    (goesOn : ∀ token, Prompt begins stops (next token) fun index => nexts index token) :
    Prompt begins stops (Production.current >>= next)
      fun index => Production.current >>= nexts index := by
  have alike (index : ι) (other : Cursor) {token : Token} (same : other.current = token) :
      (Production.current >>= nexts index) other = nexts index token other := by
    rw [current_andThen, same]
  constructor
  · intro start
    rw [current_andThen]
    exact ((goesOn start.current).verdict start).within True.intro
      (fun kind begin => ⟨True.intro, begin⟩) fun index other same _ => alike index other same
  · intro current
    exact ((goesOn current).completed current).taken (fun kind begin => ⟨begin, begin⟩)
      fun index other same _ => alike index other same

/-- The next token is refused. -/
theorem Verdict.refuse {complaint : Complaint} (count : Nat)
    (same : result = (none, (start.advanceBy count).complain start.lookahead.position complaint))
    (aboutGrammar : ∀ token, complaint ≠ .anomaly token)
    (again : ∀ index (other : Cursor), other.current = start.current ->
      other.stream.tokens.tail.head? = start.stream.tokens.tail.head? ->
      (family index other).1 = none)
    (completed : Completed begins stops start.current [] family) :
    Verdict begins stops start family result := by
  refine .refuses [] start.stream.tokens.tail count complaint ?_ aboutGrammar ⟨rfl, ?_⟩ completed
  · rw [same, Cursor.lookahead_position]
  · intro index other later alike met refused
    exact again index other alike ((congrArg List.head? met).trans refused)

end Choices

/-! ## Moving on -/

section Moving

variable {family inner : ι -> Production α} {begins stops before : TokenKind -> Prop}
  {passed behind : List Token}

theorem advance_ahead {other : Cursor} {token : Token} {later : List Token}
    (met : other.stream.tokens.tail = token :: passed ++ later) :
    other.lookahead = token ∧ other.advance.stream.tokens.tail = passed ++ later := by
  refine ⟨Cursor.lookahead_of_tokens met, ?_⟩
  rw [Cursor.advance_tokens, met]
  rfl

theorem Yields.advance {production inner : Production α} {value : α} {count : Nat}
    (same : production start = inner start.advance) (behind : Yields inner start.advance value count) :
    Yields production start value (count + 1) := by
  unfold Yields Halts at behind ⊢
  rw [same, Cursor.advanceBy_succ]
  refine behind.imp id ?_
  rintro ⟨count, halts⟩
  exact ⟨count + 1, halts.trans (by rw [Cursor.advanceBy_succ])⟩

/-- What is passed behind a token that is moved onto. -/
theorem Verdict.advance {production : Production α}
    (verdict : Verdict before stops start.advance inner (production start.advance))
    (notEnd : start.lookahead.kind ≠ .endOfFile)
    (taken : ∀ index (other : Cursor), other.current = start.current ->
      other.lookahead = start.lookahead -> family index other = inner index other.advance) :
    Verdict begins stops start family (production start.advance) := by
  have front : start.stream.tokens.tail = start.lookahead :: start.advance.stream.tokens.tail := by
    rcases tokens : start.stream.tokens.tail with _ | ⟨token, rest⟩
    · exact absurd tokens (Cursor.more_of_kind notEnd)
    · rw [Cursor.lookahead_of_tokens tokens, Cursor.advance_tokens, tokens]
      rfl
  have onto {other : Cursor} (looks : other.lookahead = start.lookahead) :
      other.advance.current = start.advance.current := by
    rw [Cursor.advance_current, Cursor.advance_current, looks]
  cases verdict with
  | answers value passed behind same answers =>
      refine .answers value (start.lookahead :: passed) behind ?_ ⟨?_, nofun, ?_⟩
      · rw [same, List.length_cons, Cursor.advanceBy_succ]
      · rw [front, answers.ahead]
        rfl
      · intro index other later alike met last
        rcases advance_ahead met with ⟨looks, left⟩
        exact (answers.again index other.advance later (onto looks) left last).advance
          (taken index other alike looks)
  | refuses passed behind count complaint same aboutGrammar refuses completed =>
      refine .refuses (start.lookahead :: passed) behind (count + 1) complaint ?_ aboutGrammar
        ⟨?_, ?_⟩ ?_
      · rw [same, Cursor.advanceBy_succ, Cursor.advance_stream]
        rfl
      · rw [front, refuses.ahead]
        rfl
      · intro index other later alike met refused
        rcases advance_ahead met with ⟨looks, left⟩
        rw [taken index other alike looks]
        exact refuses.again index other.advance later (onto looks) left refused
      · rcases completed with ⟨value, more, proper, -, completes⟩
        refine ⟨value, more, proper, nofun, ?_⟩
        intro index other later alike met stop
        rcases advance_ahead met with ⟨looks, left⟩
        have yields := (completes index other.advance later (onto looks) left stop).advance
          (taken index other alike looks)
        rwa [Nat.add_right_comm] at yields
  | halts count same => exact .halts (count + 1) (by rw [same, Cursor.advanceBy_succ])

theorem Verdict.advanced {rest : Production α}
    (verdict : Verdict before stops start.advance inner (rest start.advance))
    (notEnd : start.lookahead.kind ≠ .endOfFile) :
    Verdict begins stops start (fun index => Production.advance >>= fun _ => inner index)
      ((Production.advance >>= fun _ => rest) start) :=
  verdict.advance notEnd fun _ _ _ _ => rfl

end Moving

/-! ## Tests of the next token -/

/-- One production or another, by the class of the next token. -/
def choice (test : TokenKind -> Bool) (yes no : Production α) : Production α := do
  if test (← lookahead).kind then yes else no

section Tests

variable {test : TokenKind -> Bool} {yes no rest : Production α}
  {yeses nos rests : ι -> Production α} {begins stops before : TokenKind -> Prop}

theorem choice_of_true (taken : test start.lookahead.kind = true) :
    choice test yes no start = yes start := by
  unfold choice
  rw [lookahead_andThen, if_pos taken]

theorem choice_of_false (taken : test start.lookahead.kind = false) :
    choice test yes no start = no start := by
  unfold choice
  rw [lookahead_andThen, if_neg (ne_true_of_eq_false taken)]

theorem Verdict.choice
    (ofYes : test start.lookahead.kind = true ->
      Verdict (fun kind => test kind = true ∧ begins kind) stops start yeses (yes start))
    (ofNo : test start.lookahead.kind = false ->
      Verdict (fun kind => test kind = false ∧ begins kind) stops start nos (no start)) :
    Verdict begins stops start (fun index => Production.choice test (yeses index) (nos index))
      (Production.choice test yes no start) := by
  cases taken : test start.lookahead.kind with
  | true =>
      rw [choice_of_true taken]
      exact (ofYes taken).within taken (fun _ => id) fun index other _ => choice_of_true
  | false =>
      rw [choice_of_false taken]
      exact (ofNo taken).within taken (fun _ => id) fun index other _ => choice_of_false

theorem Completed.choice_no {current : Token}
    (completed : Completed (fun kind => test kind = false ∧ begins kind) stops current [] nos) :
    Completed begins stops current [] fun index =>
      Production.choice test (yeses index) (nos index) :=
  completed.taken (fun _ => id) fun _ _ _ => choice_of_false

/-- A choice that is completed by what is read where the test fails. -/
theorem Prompt.choice_no
    (ofYes : ∀ start, test start.lookahead.kind = true ->
      Verdict (fun kind => test kind = true ∧ begins kind) stops start yeses (yes start))
    (ofNo : Prompt (fun kind => test kind = false ∧ begins kind) stops no nos) :
    Prompt begins stops (choice test yes no) fun index => choice test (yeses index) (nos index) :=
  ⟨fun start => .choice (ofYes start) fun _ => ofNo.verdict start,
    fun current => (ofNo.completed current).choice_no⟩

/-- A choice that is completed by what is read where the test holds. -/
theorem Prompt.choice_yes
    (ofYes : Prompt (fun kind => test kind = true ∧ begins kind) stops yes yeses)
    (ofNo : Prompt (fun kind => test kind = false ∧ begins kind) stops no nos) :
    Prompt begins stops (choice test yes no) fun index => choice test (yeses index) (nos index) :=
  ⟨fun start => .choice (fun _ => ofYes.verdict start) fun _ => ofNo.verdict start,
    fun current => (ofYes.completed current).taken (fun _ => id) fun _ _ _ => choice_of_true⟩

/-- A part that is read if a token of its own stands in front of it. -/
theorem Prompt.optional (notAtEnd : test .endOfFile = false) (ofRest : Prompt before stops rest rests)
    (ofNo : Prompt (fun kind => test kind = false ∧ begins kind) stops no nos) :
    Prompt begins stops (choice test (advance >>= fun _ => rest) no)
      fun index => choice test (advance >>= fun _ => rests index) (nos index) := by
  refine .choice_no (fun start here => (ofRest.verdict start.advance).advanced ?_) ofNo
  intro atEnd
  rw [atEnd, notAtEnd] at here
  cases here

end Tests

/-! ## Single productions -/

section Single

variable {begins stops : TokenKind -> Prop}

/-- Nothing is read in front of a token that is stopped at. -/
theorem prompt_pure (value : α) (edge : ∀ kind, stops kind -> begins kind) :
    Prompt begins stops (pure value : Production α) fun _ : ι => pure value := by
  constructor
  · intro start
    exact .answers value [] start.stream.tokens.tail rfl
      ⟨rfl, fun _ => edge, fun index other later _ _ _ => .inl rfl⟩
  · intro current
    exact ⟨value, [], fun _ member => absurd member List.not_mem_nil,
      fun _ later stop => edge _ stop, fun index other later _ _ _ => .inl rfl⟩

/-- A required token is passed or refused. -/
theorem prompt_expect {token : Token} (proper : token.Proper) (begin : begins token.kind) :
    Prompt begins stops (expect token.kind) fun _ : ι => expect token.kind := by
  have completed (current : Token) :
      Completed begins stops current [] fun _ : ι => expect token.kind := by
    refine ⟨(), [token], List.forall_mem_singleton.mpr proper, fun _ _ _ => begin, ?_⟩
    intro index other later _ ahead _
    exact .inl (expect_eq_some.mpr ⟨congrArg Token.kind (Cursor.lookahead_of_tokens ahead), rfl⟩)
  refine ⟨fun start => ?_, completed⟩
  by_cases met : start.lookahead.kind = token.kind
  · have nothing : Verdict (fun _ => True) stops start.advance (fun _ : ι => pure ())
        ((pure () : Production Unit) start.advance) :=
      (prompt_pure () fun _ _ => True.intro).verdict start.advance
    rw [expect_eq_some.mpr ⟨met, rfl⟩]
    exact nothing.advance (met ▸ proper.notEnd) fun index other _ same =>
      expect_eq_some.mpr ⟨same ▸ met, rfl⟩
  · refine .refuse 0 (expect_of_ne met) (fun _ => nofun) ?_ (completed start.current)
    intro index other _ same
    rw [expect_of_ne (Cursor.lookahead_kind_congr same ▸ met)]

/-- A required token is passed, and its literal answered. -/
theorem prompt_expectLiteral {token : Token} (proper : token.Proper) (begin : begins token.kind) :
    Prompt begins stops (expectLiteral token.kind) fun _ : ι => expectLiteral token.kind :=
  (prompt_expect proper begin).andThen fun _ => .current fun found =>
    prompt_pure found.literal fun _ stop => stop

end Single

end Production
end HackToolchain
