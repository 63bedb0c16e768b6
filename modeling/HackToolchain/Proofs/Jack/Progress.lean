import HackToolchain.Proofs.Jack.Complaints
import HackToolchain.Proofs.Jack.Grammar
import HackToolchain.Proofs.Token.Progress

namespace HackToolchain
namespace Jack

/-!
# Reading a class makes progress

Every production that repeats or nests is one round and what the round hands on to.  The rounds are
written down here with that left open, and closed again they are the productions of a class source.

Side by side under two bounds, each with what it is closed with, a round comes to the same: it asks for
what comes next only behind a token that it has moved on to.  A production follows from its rounds by
induction, and the reading of a whole class from its productions.
-/

namespace Source

open Production

variable {bound bound' rounds rounds' room : Nat} {start : Cursor}

/-! ## Rounds -/

/-- One item, and what is read behind a comma. -/
def separatedRound (item : Production α) (next : Production (List α)) : Production (List α) := do
  let first ← item
  if ← isFollowedBy .comma then
    advance
    return first :: (← next)
  else return [first]

/-- An item if the next token starts one, and what is read behind it. -/
def repeatedRound (starts : TokenKind -> Bool) (item : Production α) (next : Production (List α)) :
    Production (List α) := do
  if starts (← lookahead).kind then
    advance
    let first ← item
    return first :: (← next)
  else return []

/-- An operator and a term if an operator is next, and what is read behind them. -/
def chainRound (term : Production Term) (next : Expression -> Production Expression)
    (left : Expression) : Production Expression := do
  match binaryOperator? (← lookahead).kind with
  | some operator =>
    advance
    advance
    next (.binary left operator (← term))
  | none => return left

/-- A term, if its own terms are read in another way. -/
def termRound (bound : Nat) (next : Production Term) : Production Term := do
  let token ← current
  match token.kind with
  | .integer =>
    match token.value? with
    | some value => return .integer token value
    | none => reject (.outOfRange "integer" token.literal)
  | .string =>
    match foreignCharacter? token.literal with
    | some character => reject (.remark ("unsupported character " ++
        Text.quotedCharacter character ++ " in string constant"))
    | none => return .string token
  | .keyword .true => return .constant token .true
  | .keyword .false => return .constant token .false
  | .keyword .null => return .constant token .null
  | .keyword .this => return .constant token .this
  | .identifier =>
    match (← lookahead).kind with
    | .mark .leftBracket =>
      advance
      let index ← nextExpression next bound
      expectMark .rightBracket
      return .element token index
    | .mark .leftParen | .mark .period => return .call (← call next bound)
    | _ => return .variable token
  | .mark .leftParen =>
    let inner ← nextExpression next bound
    expectMark .rightParen
    return .group token inner
  | .mark .minus =>
    advance
    return .unary token .neg (← next)
  | .mark .tilde =>
    advance
    return .unary token .not (← next)
  | _ => rejectCurrent "an expression"

/-- A statement, if its own statements are read in another way. -/
def statementRound (bound : Nat) (next : Production Statement) : Production Statement := do
  let token ← current
  match token.kind with
  | .keyword .«let» =>
    let target ← name
    let index ← (do
      if ← isFollowedBy .leftBracket then
        advance
        let index ← expression bound
        expectMark .rightBracket
        return some index
      else return none)
    expectMark .equal
    let value ← expression bound
    expectMark .semicolon
    return .assign token target index value
  | .keyword .«if» =>
    let test ← condition bound
    let consequence ← block next bound
    if (← lookahead).kind == .keyword .«else» then
      advance
      return .branch token test consequence (some (← block next bound))
    else return .branch token test consequence none
  | .keyword .«while» =>
    let test ← condition bound
    return .loop token test (← block next bound)
  | .keyword .«do» =>
    expect .identifier
    let target ← call (term bound) bound
    expectMark .semicolon
    return .perform token target
  | .keyword .«return» =>
    let value ← (do
      if ← isFollowedBy .semicolon then return none
      else return some (← expression bound))
    expectMark .semicolon
    return .«return» token value
  | _ => rejectCurrent "a statement"

/-- A class variable or a subroutine and what is read behind it, or the end of the class. -/
def membersRound (bound : Nat) (next : Production (List ClassVariables × List Subroutine)) :
    Production (List ClassVariables × List Subroutine) := do
  let follows := (← lookahead).kind
  match classVariableKind? follows, subroutineKind? follows with
  | some kind, _ =>
    advance
    let declaration ← classVariables kind bound
    let (declarations, subroutines) ← next
    return (declaration :: declarations, subroutines)
  | none, some kind =>
    advance
    let declaration ← subroutine kind bound
    let (declarations, subroutines) ← next
    return (declarations, declaration :: subroutines)
  | none, none =>
    if follows == .mark .rightBrace then
      advance
      return ([], [])
    else rejectLookahead "a class variable, a subroutine or '\x7d'"

theorem separated_eq_round (item : Production α) (bound : Nat) :
    separated item (bound + 1) = separatedRound item (separated item bound) := rfl

theorem repeated_eq_round (starts : TokenKind -> Bool) (item : Production α) (bound : Nat) :
    repeated starts item (bound + 1) = repeatedRound starts item (repeated starts item bound) := rfl

theorem chain_eq_round (term : Production Term) (bound : Nat) (left : Expression) :
    chain term (bound + 1) left = chainRound term (chain term bound) left := rfl

theorem term_eq_round (bound : Nat) : term (bound + 1) = termRound bound (term bound) := rfl

theorem statement_eq_round (bound : Nat) :
    statement (bound + 1) = statementRound bound (statement bound) := rfl

theorem members_eq_round (bound : Nat) : members (bound + 1) = membersRound bound (members bound) := rfl

/-! ## Repetition -/

theorem follows_name (onToken : start.OnToken) : Follows start (name start) (name start) :=
  follows_expectLiteral nofun onToken

theorem follows_expectMark {place : Cursor -> Prop} (mark : Mark) (onToken : start.OnToken)
    {next next' : Unit -> Production α}
    (goesOn : ∀ last : Cursor, last.OnToken -> last.remaining < start.remaining ->
      FollowsTo place last (next () last) (next' () last)) :
    FollowsTo place start ((expectMark mark >>= next) start) ((expectMark mark >>= next') start) :=
  follows_expect (mark_ne_endOfFile mark) onToken goesOn

theorem follows_typeName (onToken : start.OnToken) : Follows start (typeName start) (typeName start) := by
  unfold typeName
  rw [lookahead_andThen]
  dsimp only
  generalize kind : start.lookahead.kind = found
  split
  case h_5 => exact follows_rejectLookahead _
  all_goals
    exact follows_advance onToken (follows_pure _ (Cursor.onToken_advance (by rw [kind]; exact nofun)))

theorem follows_separatedRound {item item' : Production α} {next next' : Production (List α)}
    (onToken : start.OnToken) (items : Agrees (start.remaining + 1) item item')
    (agrees : Agrees start.remaining next next') :
    Follows start (separatedRound item next start) (separatedRound item' next' start) := by
  unfold separatedRound
  refine (items start onToken (Nat.lt_succ_self _)).andThen fun first behind onToken left => ?_
  simp only [isFollowedBy_andThen]
  split
  · rename_i comma
    have moved : behind.advance.OnToken := Cursor.onToken_advance_of_beq comma (mark_ne_endOfFile _)
    have fewer := onToken.advance_remaining
    refine follows_advance onToken ?_
    exact (agrees behind.advance moved (by omega)).andThen fun _ _ onToken _ => follows_pure _ onToken
  · exact follows_pure _ onToken

theorem follows_exhausted (start : Cursor) :
    Follows start (exhausted start : Option α × Cursor) (exhausted start) := ⟨rfl, .still, nofun⟩

theorem agrees_separated {item item' : Production α} (items : Agrees room item item')
    (enough : Enough room rounds rounds') :
    Agrees room (separated item rounds) (separated item' rounds') :=
  agrees_of_rounds (fun rounds _ => separated item rounds) (fun rounds _ => separated item' rounds)
    (fun _ start => follows_exhausted start)
    (fun _ _ _ _ onToken fits _ agrees => follows_separatedRound onToken (items.mono fits) (agrees ()))
    enough ()

theorem agrees_listed {item item' : Production α} (items : Agrees room item item')
    (enough : Enough room rounds rounds') : Agrees room (listed item rounds) (listed item' rounds') := by
  intro start onToken fits
  unfold listed
  simp only [isFollowedBy_andThen]
  split
  · exact follows_pure _ onToken
  · exact agrees_separated items enough start onToken fits

theorem follows_repeatedRound {item item' : Production α} {next next' : Production (List α)}
    {starts : TokenKind -> Bool} (proper : starts .endOfFile = false) (onToken : start.OnToken)
    (items : Agrees start.remaining item item') (agrees : Agrees start.remaining next next') :
    Follows start (repeatedRound starts item next start) (repeatedRound starts item' next' start) := by
  unfold repeatedRound
  simp only [lookahead_andThen]
  split
  · rename_i here
    have moved : start.advance.OnToken := Cursor.onToken_advance fun atEnd => by
      rw [atEnd, proper] at here
      cases here
    have fewer := onToken.advance_remaining
    simp only [advance_andThen]
    refine follows_advance onToken ?_
    refine (items start.advance moved (by omega)).andThen fun first behind onToken left => ?_
    exact (agrees behind onToken (by omega)).andThen fun _ _ onToken _ => follows_pure _ onToken
  · exact follows_pure _ onToken

theorem agrees_repeated {item item' : Production α} {starts : TokenKind -> Bool}
    (proper : starts .endOfFile = false) (items : Agrees room item item')
    (enough : Enough room rounds rounds') :
    Agrees room (repeated starts item rounds) (repeated starts item' rounds') :=
  agrees_of_rounds (fun rounds _ => repeated starts item rounds)
    (fun rounds _ => repeated starts item' rounds) (fun _ start => follows_exhausted start)
    (fun _ _ _ _ onToken fits _ agrees =>
      follows_repeatedRound proper onToken (items.mono fits.le) (agrees ()))
    enough ()

/-! ## Expressions -/

theorem follows_chainRound {term term' : Production Term}
    {next next' : Expression -> Production Expression} (onToken : start.OnToken)
    (terms : AgreesToEnd start.remaining term term')
    (agrees : ∀ left, Agrees start.remaining (next left) (next' left)) (left : Expression) :
    Follows start (chainRound term next left start) (chainRound term' next' left start) := by
  unfold chainRound
  simp only [lookahead_andThen]
  cases here : binaryOperator? start.lookahead.kind with
  | some operator =>
      have moved : start.advance.OnToken := Cursor.onToken_advance fun atEnd => by
        rw [atEnd] at here
        cases here
      have fewer := onToken.advance_remaining
      have less := moved.advance_remaining
      simp only [advance_andThen]
      refine follows_advance onToken (follows_advance moved ?_)
      refine (terms start.advance.advance True.intro (by omega)).andThen fun right last onToken left => ?_
      exact agrees _ last onToken (by omega)
  | none => exact follows_pure _ onToken

theorem agrees_chain {term term' : Production Term} (terms : AgreesToEnd room term term')
    (enough : Enough room rounds rounds') (left : Expression) :
    Agrees room (chain term rounds left) (chain term' rounds' left) :=
  agrees_of_rounds (chain term) (chain term') (fun _ start => follows_exhausted start)
    (fun _ _ left _ onToken fits _ agrees => follows_chainRound onToken (terms.mono fits.le) agrees left)
    enough left

theorem follows_nextExpression {term term' : Production Term} (onToken : start.OnToken)
    (terms : AgreesToEnd start.remaining term term') (enough : Enough start.remaining bound bound') :
    Follows start (nextExpression term bound start) (nextExpression term' bound' start) := by
  unfold nextExpression
  have fewer := onToken.advance_remaining
  simp only [advance_andThen]
  refine follows_advance onToken ?_
  refine (terms start.advance True.intro (by omega)).andThen fun first last onToken left => ?_
  exact agrees_chain terms enough _ last onToken (by omega)

theorem agrees_nextExpression {term term' : Production Term} (terms : AgreesToEnd room term term')
    (enough : Enough room bound bound') :
    Agrees room (nextExpression term bound) (nextExpression term' bound') :=
  fun _ onToken fits => follows_nextExpression onToken (terms.mono fits.le) (enough.mono fits.le)

theorem follows_target (token : Token) (onToken : start.OnToken) :
    Follows start (target token start) (target token start) := by
  unfold target
  simp only [isFollowedBy_andThen]
  split
  · rename_i period
    have moved : start.advance.OnToken := Cursor.onToken_advance_of_beq period (mark_ne_endOfFile _)
    refine follows_advance onToken ?_
    exact (follows_name moved).andThen fun _ _ onToken _ => follows_pure _ onToken
  · exact follows_pure _ onToken

theorem follows_call {term term' : Production Term} (onToken : start.OnToken)
    (terms : AgreesToEnd start.remaining term term') (enough : Enough start.remaining bound bound') :
    Follows start (call term bound start) (call term' bound' start) := by
  unfold call
  simp only [current_andThen]
  refine (follows_target start.current onToken).andThen fun names behind onToken left => ?_
  rcases names with ⟨qualifier, routine⟩
  refine follows_expectMark .leftParen onToken fun opened onToken inside => ?_
  refine (agrees_listed (agrees_nextExpression terms enough) enough opened onToken (by omega)).andThen
    fun values closing onToken _ => ?_
  exact follows_expectMark .rightParen onToken fun last onToken _ => follows_pure _ onToken

/-- A round of a term may also begin at the end of the source.  Then it ends there. -/
theorem follows_termRound {next next' : Production Term} (agrees : AgreesToEnd start.remaining next next')
    (enough : Enough start.remaining bound bound') :
    Follows start (termRound bound next start) (termRound bound' next' start) := by
  unfold termRound
  simp only [current_andThen]
  generalize kind : start.current.kind = found
  have here (proper : found ≠ .endOfFile) : start.OnToken := fun atEnd => proper (kind.symm.trans atEnd)
  split
  case h_1 =>
    cases start.current.value? with
    | some value => exact follows_pure _ (here nofun)
    | none => exact follows_reject _
  case h_2 =>
    cases foreignCharacter? start.current.literal with
    | some character => exact follows_reject _
    | none => exact follows_pure _ (here nofun)
  case h_7 =>
    have onToken := here nofun
    simp only [lookahead_andThen]
    generalize follows : start.lookahead.kind = ahead
    split
    · have moved : start.advance.OnToken := Cursor.onToken_advance (by rw [follows]; exact nofun)
      have fewer := onToken.advance_remaining
      have less : start.advance.remaining ≤ start.remaining := by omega
      refine follows_advance onToken ?_
      refine (follows_nextExpression moved (agrees.mono less) (enough.mono less)).andThen
        fun index behind onToken _ => ?_
      exact follows_expectMark .rightBracket onToken fun _ onToken _ => follows_pure _ onToken
    · exact (follows_call onToken agrees enough).andThen fun _ _ onToken _ => follows_pure _ onToken
    · exact (follows_call onToken agrees enough).andThen fun _ _ onToken _ => follows_pure _ onToken
    · exact follows_pure _ onToken
  case h_8 =>
    refine (follows_nextExpression (here nofun) agrees enough).andThen fun inner behind onToken _ => ?_
    exact follows_expectMark .rightParen onToken fun _ onToken _ => follows_pure _ onToken
  case h_9 | h_10 =>
    have onToken := here nofun
    have fewer := onToken.advance_remaining
    refine follows_advance onToken ?_
    exact (agrees start.advance True.intro (by omega)).andThen fun _ _ onToken _ => follows_pure _ onToken
  case h_11 => exact follows_rejectCurrent _
  all_goals exact follows_pure _ (here nofun)

theorem agrees_term (enough : Enough room bound bound') : AgreesToEnd room (term bound) (term bound') :=
  agrees_of_rounds (fun bound _ => term bound) (fun bound _ => term bound)
    (fun _ start => follows_exhausted start)
    (fun _ _ _ _ _ _ less agrees => follows_termRound (agrees ()) less) enough ()

theorem agrees_expression (enough : Enough room bound bound') :
    Agrees room (expression bound) (expression bound') :=
  agrees_nextExpression (agrees_term enough) enough

/-! ## Statements -/

theorem follows_block {statement statement' : Production Statement} (onToken : start.OnToken)
    (agrees : Agrees start.remaining statement statement') (enough : Enough start.remaining bound bound') :
    Follows start (block statement bound start) (block statement' bound' start) := by
  unfold block
  refine follows_expectMark .leftBrace onToken fun opened onToken inside => ?_
  refine (agrees_repeated rfl agrees enough opened onToken inside).andThen
    fun statements behind onToken _ => ?_
  exact follows_expectMark .rightBrace onToken fun _ onToken _ => follows_pure _ onToken

theorem follows_condition (onToken : start.OnToken) (enough : Enough start.remaining bound bound') :
    Follows start (condition bound start) (condition bound' start) := by
  unfold condition
  refine follows_expectMark .leftParen onToken fun opened onToken inside => ?_
  refine (agrees_expression enough opened onToken inside).andThen fun test behind onToken _ => ?_
  exact follows_expectMark .rightParen onToken fun _ onToken _ => follows_pure _ onToken

theorem follows_index (onToken : start.OnToken) (enough : Enough start.remaining bound bound') :
    Follows start (index bound start) (index bound' start) := by
  unfold index
  simp only [isFollowedBy_andThen]
  split
  · rename_i bracket
    have moved : start.advance.OnToken := Cursor.onToken_advance_of_beq bracket (mark_ne_endOfFile _)
    have fewer := onToken.advance_remaining
    refine follows_advance onToken ?_
    refine (agrees_expression enough start.advance moved (by omega)).andThen
      fun index behind onToken _ => ?_
    exact follows_expectMark .rightBracket onToken fun _ onToken _ => follows_pure _ onToken
  · exact follows_pure _ onToken

theorem follows_value (onToken : start.OnToken) (enough : Enough start.remaining bound bound') :
    Follows start (value bound start) (value bound' start) := by
  unfold value
  simp only [isFollowedBy_andThen]
  split
  · exact follows_pure _ onToken
  · exact (follows_nextExpression onToken (agrees_term enough) enough).andThen
      fun _ _ onToken _ => follows_pure _ onToken

theorem follows_statementRound {next next' : Production Statement} (onToken : start.OnToken)
    (agrees : Agrees start.remaining next next') (enough : Enough start.remaining bound bound') :
    Follows start (statementRound bound next start) (statementRound bound' next' start) := by
  unfold statementRound
  simp only [current_andThen]
  generalize kind : start.current.kind = found
  split
  case h_1 =>
    refine (follows_name onToken).andThen fun target named onToken left => ?_
    refine (follows_index onToken (enough.mono left)).andThen fun index indexed onToken _ => ?_
    refine follows_expectMark .equal onToken fun equal onToken _ => ?_
    refine (agrees_expression enough equal onToken (by omega)).andThen fun value behind onToken _ => ?_
    exact follows_expectMark .semicolon onToken fun _ onToken _ => follows_pure _ onToken
  case h_2 =>
    refine (follows_condition onToken enough).andThen fun test tested onToken left => ?_
    refine (follows_block onToken (agrees.mono left) (enough.mono left)).andThen
      fun consequence behind onToken less => ?_
    simp only [lookahead_andThen]
    split
    · rename_i alternative
      have moved : behind.advance.OnToken := Cursor.onToken_advance_of_beq alternative nofun
      have fewer := onToken.advance_remaining
      have within : behind.advance.remaining ≤ start.remaining := by omega
      refine follows_advance onToken ?_
      exact (follows_block moved (agrees.mono within) (enough.mono within)).andThen
        fun _ _ onToken _ => follows_pure _ onToken
    · exact follows_pure _ onToken
  case h_3 =>
    refine (follows_condition onToken enough).andThen fun test tested onToken left => ?_
    exact (follows_block onToken (agrees.mono left) (enough.mono left)).andThen
      fun _ _ onToken _ => follows_pure _ onToken
  case h_4 =>
    refine follows_expect (by decide) onToken fun named onToken left => ?_
    refine (follows_call onToken (agrees_term (enough.mono left.le)) (enough.mono left.le)).andThen
      fun target behind onToken _ => ?_
    exact follows_expectMark .semicolon onToken fun _ onToken _ => follows_pure _ onToken
  case h_5 =>
    refine (follows_value onToken enough).andThen fun value behind onToken _ => ?_
    exact follows_expectMark .semicolon onToken fun _ onToken _ => follows_pure _ onToken
  case h_6 => exact follows_rejectCurrent _

theorem agrees_statement (enough : Enough room bound bound') :
    Agrees room (statement bound) (statement bound') :=
  agrees_of_rounds (fun bound _ => statement bound) (fun bound _ => statement bound)
    (fun _ start => follows_exhausted start)
    (fun _ _ _ _ onToken _ less agrees => follows_statementRound onToken (agrees ()) less) enough ()

/-! ## Declarations -/

theorem agrees_name (room : Nat) : Agrees room name name := fun _ onToken _ => follows_name onToken

theorem agrees_parameter (room : Nat) : Agrees room parameter parameter := by
  intro start onToken _
  unfold parameter
  refine (follows_typeName onToken).andThen fun type behind onToken _ => ?_
  simp only [current_andThen]
  exact (follows_name onToken).andThen fun _ _ onToken _ => follows_pure _ onToken

theorem agrees_typedNames (enough : Enough room bound bound') :
    Agrees room (typedNames bound) (typedNames bound') := by
  intro start onToken fits
  unfold typedNames
  refine (follows_typeName onToken).andThen fun type behind onToken left => ?_
  refine (agrees_separated (agrees_name room) enough behind onToken (by omega)).andThen
    fun names behind onToken _ => ?_
  exact follows_expectMark .semicolon onToken fun _ onToken _ => follows_pure _ onToken

theorem agrees_classVariables (kind : ClassVariableKind) (enough : Enough room bound bound') :
    Agrees room (classVariables kind bound) (classVariables kind bound') := by
  intro start onToken fits
  unfold classVariables
  simp only [current_andThen]
  exact (agrees_typedNames enough start onToken fits).andThen fun _ _ onToken _ => follows_pure _ onToken

theorem agrees_localVariables (enough : Enough room bound bound') :
    Agrees room (localVariables bound) (localVariables bound') := by
  intro start onToken fits
  unfold localVariables
  simp only [current_andThen]
  exact (agrees_typedNames enough start onToken fits).andThen fun _ _ onToken _ => follows_pure _ onToken

theorem follows_returnType (onToken : start.OnToken) :
    Follows start (returnType start) (returnType start) := by
  unfold returnType
  simp only [lookahead_andThen]
  split
  · rename_i void
    have moved : start.advance.OnToken := Cursor.onToken_advance_of_beq void nofun
    exact follows_advance onToken (follows_pure _ moved)
  · exact (follows_typeName onToken).andThen fun _ _ onToken _ => follows_pure _ onToken

theorem agrees_subroutine (kind : SubroutineKind) (enough : Enough room bound bound') :
    Agrees room (subroutine kind bound) (subroutine kind bound') := by
  intro start onToken fits
  unfold subroutine
  simp only [current_andThen]
  refine (follows_returnType onToken).andThen fun type typed onToken left => ?_
  refine (follows_name onToken).andThen fun routine named onToken _ => ?_
  refine follows_expectMark .leftParen onToken fun opened onToken _ => ?_
  refine (agrees_listed (agrees_parameter room) enough opened onToken (by omega)).andThen
    fun parameters closing onToken _ => ?_
  refine follows_expectMark .rightParen onToken fun closed onToken _ => ?_
  refine follows_expectMark .leftBrace onToken fun body onToken _ => ?_
  simp only [current_andThen]
  refine (agrees_repeated rfl (agrees_localVariables enough) enough body onToken (by omega)).andThen
    fun locals declared onToken _ => ?_
  refine (agrees_repeated rfl (agrees_statement enough) enough declared onToken (by omega)).andThen
    fun statements behind onToken _ => ?_
  exact follows_expectMark .rightBrace onToken fun _ onToken _ => follows_pure _ onToken

theorem follows_membersRound {next next' : Production (List ClassVariables × List Subroutine)}
    (onToken : start.OnToken) (agrees : Agrees start.remaining next next')
    (enough : Enough start.remaining bound bound') :
    Follows start (membersRound bound next start) (membersRound bound' next' start) := by
  unfold membersRound
  simp only [lookahead_andThen]
  generalize follows : start.lookahead.kind = ahead
  have moved (proper : ahead ≠ .endOfFile) : start.advance.OnToken :=
    Cursor.onToken_advance fun atEnd => proper (follows.symm.trans atEnd)
  have fewer := onToken.advance_remaining
  cases declares : classVariableKind? ahead with
  | some kind =>
      have declaring := moved fun atEnd => by
        rw [atEnd] at declares
        cases declares
      dsimp only
      simp only [advance_andThen]
      refine follows_advance onToken ?_
      refine (agrees_classVariables kind enough start.advance declaring (by omega)).andThen
        fun declaration behind onToken _ => ?_
      exact (agrees behind onToken (by omega)).andThen fun _ _ onToken _ => follows_pure _ onToken
  | none =>
      cases defines : subroutineKind? ahead with
      | some kind =>
          have defining := moved fun atEnd => by
            rw [atEnd] at defines
            cases defines
          dsimp only
          simp only [advance_andThen]
          refine follows_advance onToken ?_
          refine (agrees_subroutine kind enough start.advance defining (by omega)).andThen
            fun declaration behind onToken _ => ?_
          exact (agrees behind onToken (by omega)).andThen fun _ _ onToken _ => follows_pure _ onToken
      | none =>
          dsimp only
          split
          · rename_i closes
            have closing := moved (by rw [eq_of_beq closes]; exact nofun)
            exact follows_advance onToken (follows_pure _ closing)
          · exact follows_rejectLookahead _

theorem agrees_members (enough : Enough room bound bound') :
    Agrees room (members bound) (members bound') :=
  agrees_of_rounds (fun bound _ => members bound) (fun bound _ => members bound)
    (fun _ start => follows_exhausted start)
    (fun _ _ _ _ onToken _ less agrees => follows_membersRound onToken (agrees ()) less) enough ()

/-- The end of the source has to follow behind a class, and is moved on to from its last token. -/
theorem follows_classTree (enough : Enough (start.remaining + 1) bound bound') :
    FollowsTo (fun last => ¬ last.OnToken) start (classTree bound start) (classTree bound' start) := by
  unfold classTree
  simp only [current_andThen]
  split
  · rename_i isClass
    have onToken : start.OnToken := by
      unfold Cursor.OnToken
      rw [eq_of_beq isClass]
      exact nofun
    refine (follows_name onToken).andThen fun className named onToken left => ?_
    refine follows_expectMark .leftBrace onToken fun opened onToken inside => ?_
    refine (agrees_members enough opened onToken (by omega)).andThen fun read behind onToken _ => ?_
    have walks := walks_expect .endOfFile onToken
    rcases done : expect .endOfFile behind with ⟨_ | ⟨⟩, last⟩
    · rw [done] at walks
      rw [andThen_of_none done]
      exact ⟨rfl, walks, nofun⟩
    · rw [done] at walks
      rw [andThen_eq done]
      have stopped : ¬ last.OnToken := by
        obtain ⟨atEnd, rfl⟩ := expect_eq_some.mp done
        unfold Cursor.OnToken
        rw [Cursor.advance_current]
        exact not_not_intro atEnd
      exact ⟨rfl, walks, fun _ _ => stopped⟩
  · exact ⟨rfl, start.walks_complain _ _, nofun⟩

/-- No round of a class source starts the next one without having moved on.  A term that is to begin at
the end of the source ends the reading. -/
structure RoundsMoveOn : Prop where
  names : RunsInRounds (separated name) fun _ => separatedRound name
  parameters : RunsInRounds (separated parameter) fun _ => separatedRound parameter
  arguments : ∀ bound, RunsInRounds (separated (nextExpression (term bound) bound)) fun _ =>
    separatedRound (nextExpression (term bound) bound)
  locals : ∀ bound, RunsInRounds (repeated (· == .keyword .var) (localVariables bound)) fun _ =>
    repeatedRound (· == .keyword .var) (localVariables bound)
  statements : ∀ bound, RunsInRounds (repeated startsStatement (statement bound)) fun _ =>
    repeatedRound startsStatement (statement bound)
  operators : ∀ bound,
    (∀ rounds left, chain (term bound) (rounds + 1) left =
      chainRound (term bound) (chain (term bound) rounds) left) ∧
    ∀ (start : Cursor) (next other : Expression -> Production Expression) left, start.OnToken ->
      (∀ left, AgreesToEnd start.remaining (next left) (other left)) ->
        chainRound (term bound) next left start = chainRound (term bound) other left start
  terms : RunsInRounds term termRound
  termAtEnd : ∀ bound next (start : Cursor), ¬ start.OnToken -> (termRound bound next start).1 = none
  nested : RunsInRounds statement statementRound
  members : RunsInRounds members membersRound

theorem roundsMoveOn : RoundsMoveOn where
  names := ⟨separated_eq_round name, fun _ _ _ _ onToken agrees =>
    (follows_separatedRound onToken (agrees_name _) agrees.agrees).same⟩
  parameters := ⟨separated_eq_round parameter, fun _ _ _ _ onToken agrees =>
    (follows_separatedRound onToken (agrees_parameter _) agrees.agrees).same⟩
  arguments := fun _ => ⟨separated_eq_round _, fun _ _ _ _ onToken agrees =>
    (follows_separatedRound onToken (agrees_expression (.inl rfl)) agrees.agrees).same⟩
  locals := fun _ => ⟨repeated_eq_round _ _, fun _ _ _ _ onToken agrees =>
    (follows_repeatedRound rfl onToken (agrees_localVariables (.inl rfl)) agrees.agrees).same⟩
  statements := fun _ => ⟨repeated_eq_round _ _, fun _ _ _ _ onToken agrees =>
    (follows_repeatedRound rfl onToken (agrees_statement (.inl rfl)) agrees.agrees).same⟩
  operators := fun _ => ⟨chain_eq_round _, fun _ _ _ left onToken agrees =>
    (follows_chainRound onToken (agrees_term (.inl rfl)) (fun left => (agrees left).agrees) left).same⟩
  terms := ⟨term_eq_round, fun _ _ _ _ _ agrees => (follows_termRound agrees (.inl rfl)).same⟩
  termAtEnd := by
    intro bound next start atEnd
    unfold termRound
    rw [current_andThen, Classical.not_not.mp atEnd]
    rfl
  nested := ⟨statement_eq_round, fun _ _ _ _ onToken agrees =>
    (follows_statementRound onToken agrees.agrees (.inl rfl)).same⟩
  members := ⟨members_eq_round, fun _ _ _ _ onToken agrees =>
    (follows_membersRound onToken agrees.agrees (.inl rfl)).same⟩

end Source

/-! ## Classes -/

/-- The reading of a class walks up to the end of the source. -/
theorem walks_run (source : String) :
    (beginning source).Walks (run source).2 ∧ (run source).2.remaining = 0 := by
  have follows : Production.FollowsTo (fun last => ¬ last.OnToken) (beginning source)
      (Source.classTree ((beginning source).remaining + 1) (beginning source)) _ :=
    Source.follows_classTree (.inl rfl)
  have drained (last : Cursor) (walks : (beginning source).Walks last) :
      (beginning source).Walks last.drain ∧ last.drain.remaining = 0 :=
    ⟨walks.trans (Cursor.walks_drain (walks.proper (beginning_proper source))), last.drain_remaining⟩
  obtain ⟨-, walks, ends⟩ := follows
  unfold run
  rw [show Cursor.ofStream (reading.stream source) true = beginning source from rfl]
  dsimp only
  rcases done : Source.classTree ((beginning source).remaining + 1) (beginning source) with ⟨_ | tree, last⟩
  · rw [done] at walks
    exact drained last walks
  · rw [done] at walks ends
    dsimp only
    split
    · exact drained last walks
    · exact ⟨walks, Cursor.remaining_of_end (walks.proper (beginning_proper source)) (ends tree rfl)⟩

/-- Reading a class makes progress: no bound above the number of tokens makes a difference, and a reading
without a tree has complained; the cursor walks to the end of the source, with one move for every token;
and to move on to the end there is to move on until the end is reached. -/
structure MakesProgress (source : String) : Prop where
  bounded : ∀ bound, (beginning source).remaining < bound ->
    Source.classTree bound (beginning source) =
      Source.classTree ((beginning source).remaining + 1) (beginning source)
  complains : (run source).1 = none -> (run source).2.report ≠ []
  walks : (beginning source).Walks (run source).2
  moves : (run source).2.moves = (reading.stream source).tokens.length
  drains : ∀ cursor, (beginning source).Walks cursor ->
    cursor.drain = if cursor.currentIs .endOfFile then cursor else cursor.advance.drain

theorem makesProgress (source : String) : MakesProgress source := by
  obtain ⟨walks, atEnd⟩ := walks_run source
  refine ⟨?bounded, ?complains, walks, ?moves, ?drains⟩
  case bounded =>
    intro bound enough
    exact (Source.follows_classTree (.inr ⟨enough, Nat.le_refl _⟩)).same
  case complains =>
    intro refused
    have failed : parse source = .error (run source).2.report := by
      unfold parse
      rcases done : run source with ⟨_ | tree, last⟩
      · rfl
      · rw [done] at refused
        cases refused
    exact parse_error_ne_nil failed
  case moves =>
    rw [walks.moves_of_end (Cursor.ofStream_moves _ _) atEnd, Cursor.remaining, beginning,
      Cursor.ofStream_stream]
  case drains => exact fun cursor onward => Cursor.drain_eq (onward.proper (beginning_proper source))

end Jack
end HackToolchain
