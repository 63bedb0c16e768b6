import HackToolchain.Proofs.Jack.Members
import HackToolchain.Proofs.Token.Promptness

namespace HackToolchain
namespace Jack

/-!
# Expressions are prompt

Every production of a class source is prompt, judged by itself with other bounds.  What is repeated is
completed by an end of the repetition, and a term by the shortest one that there is.  A term is refused
at its first token only, and then for its class, its value or its text.

Productions that start on their first token are looked at from the token in front of it.
-/

open Production

namespace Source

variable {ι : Type} {begins stops : TokenKind -> Prop}

/-! ## Bounds that are used up -/

theorem halts_exhausted (start : Cursor) : Halts (exhausted : Production α) start := ⟨0, rfl⟩

theorem prompt_exhausted {family : ι -> Production α}
    (completed : ∀ current, Completed begins stops current [] family) :
    Prompt begins stops exhausted family := ⟨fun _ => .halts 0 rfl, completed⟩

/-! ## Marks and names -/

theorem prompt_expectMark (mark : Mark) (begin : begins (.mark mark)) :
    Prompt begins (fun _ => True) (expectMark mark) fun _ : ι => expectMark mark :=
  prompt_expect (Token.proper_ofMark mark) begin

/-- The mark that ends a construct. -/
theorem prompt_ended (mark : Mark) (value : α) (begin : begins (.mark mark)) :
    Prompt begins stops (do expectMark mark; return value)
      fun _ : ι => (do expectMark mark; return value : Production α) :=
  (prompt_expectMark mark begin).andThen fun _ => prompt_pure value fun _ _ => True.intro

theorem prompt_name (begin : begins .identifier) :
    Prompt begins (fun _ => True) name fun _ : ι => name :=
  prompt_expectLiteral (Token.proper_ofName "name") begin

/-! ## Repetition -/

section Repetition

variable {item : Production α} {items : ι -> Production α} {between : TokenKind -> Prop}

/-- What follows an item of a list. -/
def following (item : Production α) (rounds : Nat) (first : α) : Production (List α) :=
  choice (· == .mark .comma)
    (do
      advance
      return first :: (← separated item rounds))
    (pure [first])

theorem unfolds_separated : Unfolds (fun index : ι × Nat => separated (items index.1) index.2)
    fun index : ι × Nat => items index.1 >>= following (items index.1) index.2 :=
  unfolds_rounds (fun _ => halts_exhausted) fun _ _ => rfl

/-- Items with commas between them.  Every item can be the last one, so a list is completed behind any
of them. -/
theorem prompt_separated (prompt : Prompt begins between item items)
    (narrow : ∀ kind, stops kind -> kind ≠ .mark .comma ∧ between kind) (rounds : Nat) :
    Prompt begins stops (separated item rounds)
      fun index : ι × Nat => separated (items index.1) index.2 := by
  have one : Prompt begins between item fun index : ι × Nat => items index.1 := prompt.reindex Prod.fst
  have last (first : α) : Prompt (fun kind => (kind == .mark .comma) = false ∧ between kind) stops
      (pure [first]) fun _ : ι × Nat => pure [first] :=
    prompt_pure [first] fun kind stop =>
      ⟨beq_eq_false_iff_ne.mpr (narrow kind stop).1, (narrow kind stop).2⟩
  have ends (first : α) (current : Token) : Completed between stops current []
      fun index : ι × Nat => following (items index.1) index.2 first :=
    ((last first).completed current).choice_no
  induction rounds with
  | zero =>
      exact prompt_exhausted fun current =>
        ((one.completed current).andThen ends).unfold unfolds_separated
  | succ rounds inductionHypothesis =>
      have others (first : α) : Prompt begins stops (do return first :: (← separated item rounds))
          fun index : ι × Nat =>
            (do return first :: (← separated (items index.1) index.2) : Production (List α)) :=
        inductionHypothesis.andThen fun rest => prompt_pure (first :: rest) fun _ => id
      have whole := one.andThen fun first => .optional rfl (others first) (last first)
      exact whole.unfold unfolds_separated

variable {starts : TokenKind -> Bool}

/-- A production that starts on the next token has it in front of all that it goes on with. -/
theorem startingOn_andThen {item : Production α} {next : α -> Production β} {start : Cursor}
    (here : starts start.lookahead.kind = true) :
    (startingOn starts item >>= next) start = (advance >>= fun _ => item >>= next) start := by
  change Production.andThen (startingOn starts item) next start =
    Production.andThen item next start.advance
  unfold Production.andThen startingOn
  rw [if_pos here]

theorem verdict_startingOn (prompt : Prompt (fun _ => True) stops item items)
    (notAtEnd : starts .endOfFile = false) (start : Cursor) :
    Verdict begins stops start (fun index => startingOn starts (items index))
      (startingOn starts item start) := by
  by_cases here : starts start.lookahead.kind = true
  · have enters {item : Production α} {other : Cursor} (same : other.lookahead = start.lookahead) :
        startingOn starts item other = item other.advance := by
      unfold startingOn
      rw [same, if_pos here]
    rw [enters rfl]
    refine (prompt.verdict start.advance).advance ?_ fun index other _ => enters
    intro atEnd
    rw [atEnd, notAtEnd] at here
    cases here
  · exact .halts 0 (if_neg here)

/-- An item and those that follow it. -/
def itemAndMore (starts : TokenKind -> Bool) (item : Production α) (rounds : Nat) :
    Production (List α) := do
  advance
  let first ← item
  return first :: (← repeated starts item rounds)

theorem unfolds_repeated : Unfolds (fun index : ι × Nat => repeated starts (items index.1) index.2)
    fun index : ι × Nat => choice starts (itemAndMore starts (items index.1) index.2) (pure []) :=
  unfolds_rounds (fun _ => halts_exhausted) fun _ _ => rfl

/-- Items that start on a token of their own.  What stands behind them starts none. -/
theorem prompt_repeated
    (verdict : ∀ begins start,
      Verdict begins between start (fun index => startingOn starts (items index))
        (startingOn starts item start))
    (narrow : ∀ kind, stops kind -> starts kind = false ∧ between kind)
    (edge : ∀ kind, stops kind -> begins kind) (rounds : Nat) :
    Prompt begins stops (repeated starts item rounds)
      fun index : ι × Nat => repeated starts (items index.1) index.2 := by
  have none {begins : TokenKind -> Prop} (edge : ∀ kind, stops kind -> begins kind) :
      Prompt (fun kind => starts kind = false ∧ begins kind) stops (pure [])
        fun _ : ι × Nat => (pure [] : Production (List α)) :=
    prompt_pure [] fun kind stop => ⟨(narrow kind stop).1, edge kind stop⟩
  induction rounds generalizing begins with
  | zero =>
      exact prompt_exhausted fun current =>
        ((none edge).completed current).choice_no.unfold unfolds_repeated
  | succ rounds inductionHypothesis =>
      refine Prompt.unfold (.choice_no (fun start here => ?_) (none edge)) unfolds_repeated
      have one : Verdict (fun kind => starts kind = true ∧ begins kind) between start
          (fun index : ι × Nat => startingOn starts (items index.1)) (startingOn starts item start) :=
        (verdict _ start).unfold
          (unfolds_reindex (fun index => startingOn starts (items index)) Prod.fst)
      have rest : Prompt between stops (repeated starts item rounds)
          fun index : ι × Nat => repeated starts (items index.1) index.2 :=
        inductionHypothesis fun kind stop => (narrow kind stop).2
      have both := one.andThen fun first => rest.andThen fun others =>
        prompt_pure (first :: others) fun _ => id
      rw [startingOn_andThen here] at both
      exact both.within here (fun _ begin => ⟨begin.1, begin⟩) fun index other _ starting =>
        (startingOn_andThen starting).symm

/-- Items in front of a closing parenthesis. -/
theorem prompt_listed (prompt : Prompt (· ≠ .mark .rightParen) between item items)
    (narrow : between (.mark .rightParen)) (bound : Nat) :
    Prompt (fun _ => True) (· = .mark .rightParen) (listed item bound)
      fun index : ι × Nat => listed (items index.1) index.2 := by
  have none : Prompt (fun kind => (kind == .mark .rightParen) = true ∧ True) (· = .mark .rightParen)
      (pure [] : Production (List α)) fun _ : ι × Nat => pure [] :=
    prompt_pure [] fun kind stop => ⟨beq_iff_eq.mpr stop, True.intro⟩
  have some : Prompt (· ≠ .mark .rightParen) (· = .mark .rightParen) (separated item bound)
      fun index : ι × Nat => separated (items index.1) index.2 :=
    prompt_separated prompt (by rintro _ rfl; exact ⟨nofun, narrow⟩) bound
  exact .choice_yes none (some.widen fun kind other => ⟨beq_eq_false_iff_ne.mpr other, True.intro⟩)

end Repetition

/-! ## Chains -/

/-- A production that starts on its first token, looked at from the token in front of it. -/
def onNext (production : Production α) : Production α := fun start => production start.advance

section Chains

variable {term : Production Term} {terms : ι -> Production Term} {before : TokenKind -> Prop}

/-- The rest of a chain, with a bound that is not used up. -/
def link (term : Production Term) (rounds : Nat) (left : Expression) : Production Expression := do
  match binaryOperator? (← lookahead).kind with
  | some operator =>
    advance
    advance
    chain term rounds (.binary left operator (← term))
  | none => return left

theorem link_of_some {rounds : Nat} {left : Expression} {operator : BinaryOperator} {start : Cursor}
    (found : binaryOperator? start.lookahead.kind = some operator) :
    link term rounds left start =
      (onNext term >>= fun right => chain term rounds (.binary left operator right)) start.advance := by
  unfold link
  rw [lookahead_andThen]
  simp only [found]
  rfl

theorem link_of_none {rounds : Nat} {left : Expression} {start : Cursor}
    (found : binaryOperator? start.lookahead.kind = none) :
    link term rounds left start = (pure left : Production Expression) start := by
  unfold link
  rw [lookahead_andThen]
  simp only [found]

theorem unfolds_chain (left : Expression) :
    Unfolds (fun index : ι × Nat => chain (terms index.1) index.2 left)
      fun index : ι × Nat => link (terms index.1) index.2 left :=
  unfolds_rounds (fun _ => halts_exhausted) fun _ _ => rfl

/-- The rest of a chain, which is completed by nothing more.  Behind an operator the bound is smaller,
and the term that is read there becomes part of what stands on the left. -/
theorem prompt_chain (prompt : Prompt before EndsTerm (onNext term) fun index => onNext (terms index))
    (narrow : ∀ kind, stops kind -> EndsExpression kind) (edge : ∀ kind, stops kind -> begins kind)
    (rounds : Nat) (left : Expression) :
    Prompt begins stops (chain term rounds left)
      fun index : ι × Nat => chain (terms index.1) index.2 left := by
  have none {begins : TokenKind -> Prop} (edge : ∀ kind, stops kind -> begins kind)
      (left : Expression) :
      Prompt (fun kind => binaryOperator? kind = .none ∧ begins kind) stops (pure left)
        fun _ : ι × Nat => (pure left : Production Expression) :=
    prompt_pure left fun kind stop => ⟨(narrow kind stop).1, edge kind stop⟩
  have ends {begins : TokenKind -> Prop} (edge : ∀ kind, stops kind -> begins kind) (left : Expression)
      (current : Token) :
      Completed begins stops current [] fun index : ι × Nat => chain (terms index.1) index.2 left :=
    .unfold (.taken ((none edge left).completed current) (fun _ => id)
      fun _ _ _ => link_of_none) (unfolds_chain left)
  induction rounds generalizing begins left with
  | zero => exact prompt_exhausted (ends edge left)
  | succ rounds inductionHypothesis =>
      refine ⟨fun start => Verdict.unfold ?_ (unfolds_chain left), ends edge left⟩
      change Verdict _ _ _ _ (link term rounds left start)
      cases found : binaryOperator? start.lookahead.kind with
      | none =>
          rw [link_of_none found]
          exact ((none edge left).verdict start).within found (fun _ => id)
            fun index other _ => link_of_none
      | some operator =>
          have both := (prompt.reindex (Prod.fst : ι × Nat -> ι)).andThen fun right =>
            inductionHypothesis (fun kind stop => (narrow kind stop).2) (.binary left operator right)
          have notEnd : start.lookahead.kind ≠ .endOfFile := by
            rw [binaryOperator?_eq_some.mp found]
            cases operator <;> decide
          rw [link_of_some found]
          exact (both.verdict start.advance).advance notEnd fun index other _ same =>
            link_of_some (same ▸ found)

theorem prompt_nextExpression
    (prompt : Prompt begins EndsTerm (onNext term) fun index => onNext (terms index))
    (narrow : ∀ kind, stops kind -> EndsExpression kind) (bound : Nat) :
    Prompt begins stops (nextExpression term bound)
      fun index : ι × Nat => nextExpression (terms index.1) index.2 :=
  (prompt.reindex Prod.fst).andThen fun first =>
    prompt_chain prompt narrow (fun kind stop => (narrow kind stop).2) bound (.term first)

theorem prompt_target (token : Token) (edge : begins (.mark .leftParen)) :
    Prompt begins (· = .mark .leftParen) (target token) fun _ : ι => target token := by
  have single : Prompt (fun kind => (kind == .mark .period) = false ∧ begins kind)
      (· = .mark .leftParen) (pure (none, token.literal) : Production (Option String × String))
      fun _ : ι => pure (none, token.literal) :=
    prompt_pure _ (by rintro _ rfl; exact ⟨rfl, edge⟩)
  have named : Prompt (fun _ => True) (· = .mark .leftParen) (do return (some token.literal, ← name))
      fun _ : ι => (do return (some token.literal, ← name) : Production (Option String × String)) :=
    (prompt_name True.intro).andThen fun other => prompt_pure _ fun _ _ => True.intro
  exact .optional rfl named single

theorem prompt_call {before : TokenKind -> Prop}
    (prompt : Prompt before EndsTerm (onNext term) fun index => onNext (terms index))
    (opens : ∀ kind, before kind -> kind ≠ .mark .rightParen)
    (begin : begins (.mark .leftParen)) (bound : Nat) :
    Prompt begins stops (call term bound) fun index : ι × Nat => call (terms index.1) index.2 := by
  have value : Prompt (· ≠ .mark .rightParen)
      (fun kind => kind = .mark .comma ∨ kind = .mark .rightParen) (nextExpression term bound)
      fun index : ι × Nat => nextExpression (terms index.1) index.2 :=
    have ends : ∀ kind, kind = .mark .comma ∨ kind = .mark .rightParen -> EndsExpression kind := by
      rintro _ (rfl | rfl)
      · exact ⟨rfl, True.intro⟩
      · exact ⟨rfl, True.intro⟩
    (prompt_nextExpression prompt ends bound).widen opens
  have arguments : Prompt (fun _ => True) (· = .mark .rightParen)
      (listed (nextExpression term bound) bound)
      fun index : ι × Nat => listed (nextExpression (terms index.1) index.2) index.2 :=
    (prompt_listed value (.inr rfl) bound).reindex fun index => (index, index.2)
  refine .current fun token => .andThen (prompt_target token begin) ?_
  rintro ⟨qualifier, routine⟩
  exact .andThen (prompt_expectMark .leftParen rfl) fun _ => .andThen arguments fun values =>
    prompt_ended .rightParen _ rfl

end Chains

/-! ## Terms -/

theorem prompt_expression {bound : Nat}
    (prompt : Prompt begins EndsTerm (onNext (term bound)) fun bound => onNext (term bound))
    (narrow : ∀ kind, stops kind -> EndsExpression kind) :
    Prompt begins stops (expression bound) expression :=
  (prompt_nextExpression prompt narrow bound).reindex fun bound => (bound, bound)

theorem prompt_closed {bound : Nat}
    (prompt : Prompt begins EndsTerm (onNext (term bound)) fun bound => onNext (term bound))
    (mark : Mark) (narrow : EndsExpression (.mark mark)) (build : Expression -> β) :
    Prompt begins stops
      (do
        let inner ← expression bound
        expectMark mark
        return build inner)
      fun bound => (do
        let inner ← expression bound
        expectMark mark
        return build inner : Production β) := by
  have inner : Prompt begins (· = .mark mark) (expression bound) expression :=
    prompt_expression prompt (by rintro _ rfl; exact narrow)
  exact .andThen inner fun inner => prompt_ended mark (build inner) rfl

/-- What follows the name that a term starts with. -/
def afterName (bound : Nat) (token : Token) : Production Term := do
  match (← lookahead).kind with
  | .mark .leftBracket =>
    advance
    let index ← expression bound
    expectMark .rightBracket
    return .element token index
  | .mark .leftParen | .mark .period => return .call (← call (term bound) bound)
  | _ => return .variable token

theorem unfolds_terms : Unfolds (fun bound => onNext (term bound))
    fun bound => onNext (term (bound + 1)) :=
  unfolds_bounds (fun _ => ⟨1, rfl⟩) fun _ => rfl

/-- The shortest term is a constant. -/
theorem completed_term (begin : begins (.keyword .null)) (current : Token) :
    Completed begins stops current [] fun bound => onNext (term bound) := by
  refine ⟨.constant (.ofKeyword .null) .null, [.ofKeyword .null],
    List.forall_mem_singleton.mpr (Token.proper_ofKeyword .null), fun _ _ _ => begin, ?_⟩
  rintro (_ | bound) other later - ahead -
  · exact .inr ⟨1, rfl⟩
  · have same : other.lookahead = .ofKeyword .null := Cursor.lookahead_of_tokens ahead
    refine .inl ?_
    unfold onNext
    rw [term, current_andThen, Cursor.advance_current, same]
    rfl

section AfterName

variable {bound : Nat} {token : Token} {start : Cursor}

theorem afterName_of_ends (ends : EndsTerm start.lookahead.kind) :
    afterName bound token start = (pure (.variable token) : Production Term) start := by
  unfold afterName
  rw [lookahead_andThen]
  generalize start.lookahead.kind = found at ends
  split
  · exact ends.elim
  · exact ends.elim
  · exact ends.elim
  · rfl

theorem afterName_of_call
    (opens : start.lookahead.kind = .mark .leftParen ∨ start.lookahead.kind = .mark .period) :
    afterName bound token start =
      (do return .call (← call (term bound) bound) : Production Term) start := by
  unfold afterName
  rw [lookahead_andThen]
  rcases opens with next | next
  · simp only [next]
  · simp only [next]

theorem afterName_of_bracket (opens : start.lookahead.kind = .mark .leftBracket) :
    afterName bound token start = (do
      let index ← expression bound
      expectMark .rightBracket
      return .element token index : Production Term) start.advance := by
  unfold afterName
  rw [lookahead_andThen]
  simp only [opens]
  rfl

theorem endsTerm_of_ne {kind : TokenKind} (bracket : kind ≠ .mark .leftBracket)
    (opens : ¬ (kind = .mark .leftParen ∨ kind = .mark .period)) : EndsTerm kind := by
  unfold EndsTerm
  split
  · exact bracket rfl
  · exact opens (.inl rfl)
  · exact opens (.inr rfl)
  · exact True.intro

/-- A name alone is a term, so that what follows it may be left out. -/
theorem prompt_afterName {before : TokenKind -> Prop}
    (prompt : Prompt before EndsTerm (onNext (term bound)) fun bound => onNext (term bound))
    (opens : ∀ kind, before kind -> kind ≠ .mark .rightParen) (token : Token) :
    Prompt (fun _ => True) EndsTerm (afterName bound token) fun bound => afterName bound token := by
  have single : Prompt EndsTerm EndsTerm (pure (.variable token))
      fun _ : Nat => (pure (.variable token) : Production Term) := prompt_pure _ fun _ => id
  refine ⟨fun start => ?_, fun current => ?_⟩
  · by_cases bracket : start.lookahead.kind = .mark .leftBracket
    · have index : Prompt before EndsTerm _ _ :=
        prompt_closed prompt .rightBracket ⟨rfl, True.intro⟩ (Term.element token)
      rw [afterName_of_bracket bracket]
      exact (index.verdict start.advance).advance (by rw [bracket]; decide)
        fun index other _ same => afterName_of_bracket (same ▸ bracket)
    by_cases paren : start.lookahead.kind = .mark .leftParen ∨ start.lookahead.kind = .mark .period
    · have target : Prompt (fun kind => kind = .mark .leftParen ∨ kind = .mark .period) EndsTerm
          (call (term bound) bound) fun bound => call (term bound) bound :=
        (prompt_call prompt opens (.inl rfl) bound).reindex fun bound => (bound, bound)
      have whole : Prompt (fun kind => kind = .mark .leftParen ∨ kind = .mark .period) EndsTerm
          (do return .call (← call (term bound) bound))
          fun bound => (do return .call (← call (term bound) bound) : Production Term) :=
        .andThen target fun _ => prompt_pure _ fun _ stop => stop
      rw [afterName_of_call paren]
      exact (whole.verdict start).within paren (fun kind begin => ⟨begin, True.intro⟩)
        fun index other _ => afterName_of_call
    · have ends : EndsTerm start.lookahead.kind := endsTerm_of_ne bracket paren
      rw [afterName_of_ends ends]
      exact (single.verdict start).within ends (fun kind begin => ⟨begin, True.intro⟩)
        fun index other _ => afterName_of_ends
  · exact (single.completed current).taken (fun kind begin => ⟨begin, True.intro⟩)
      fun index other _ => afterName_of_ends

end AfterName

/-- The classes of tokens that a term starts with. -/
inductive StartsTerm : TokenKind -> Prop
  | integer : StartsTerm .integer
  | string : StartsTerm .string
  | constant (value : Constant) : StartsTerm (.keyword value.keyword)
  | name : StartsTerm .identifier
  | group : StartsTerm (.mark .leftParen)
  | unary (operator : UnaryOperator) : StartsTerm (.mark operator.mark)

theorem term_of_not_startsTerm {bound : Nat} {cursor : Cursor}
    (none : ¬ StartsTerm cursor.current.kind) :
    term (bound + 1) cursor = rejectCurrent "an expression" cursor := by
  unfold term
  rw [current_andThen]
  generalize cursor.current.kind = found at none
  split
  · exact absurd .integer none
  · exact absurd .string none
  · exact absurd (.constant .true) none
  · exact absurd (.constant .false) none
  · exact absurd (.constant .null) none
  · exact absurd (.constant .this) none
  · exact absurd .name none
  · exact absurd .group none
  · exact absurd (.unary .neg) none
  · exact absurd (.unary .not) none
  · rfl

section FirstTokens

variable {start : Cursor} {bound : Nat} {before : TokenKind -> Prop}

/-- A term is prompt behind the token in front of it. -/
def TermIsPrompt (begins : TokenKind -> Prop) (bound : Nat) (start : Cursor) : Prop :=
  Verdict begins EndsTerm start (fun bound => onNext (term (bound + 1)))
    (onNext (term (bound + 1)) start)

/-- A term whose reading goes on behind its first token. -/
theorem TermIsPrompt.of_enters {production : Production Term} {rest : Nat -> Production Term}
    (prompt : Prompt before EndsTerm production rest) (own : production = rest bound)
    (notEnd : start.lookahead.kind ≠ .endOfFile)
    (enters : ∀ bound (cursor : Cursor), cursor.current = start.lookahead ->
      term (bound + 1) cursor = rest bound cursor) : TermIsPrompt begins bound start := by
  have moved (bound : Nat) (other : Cursor) (same : other.lookahead = start.lookahead) :
      onNext (term (bound + 1)) other = rest bound other.advance :=
    enters bound other.advance (other.advance_current.trans same)
  unfold TermIsPrompt
  rw [moved bound start rfl, ← own]
  exact (prompt.verdict start.advance).advance notEnd fun index other _ => moved index other

/-- A term that is its first token. -/
theorem TermIsPrompt.of_single (answer : Term) (notEnd : start.lookahead.kind ≠ .endOfFile)
    (enters : ∀ bound (cursor : Cursor), cursor.current = start.lookahead ->
      term (bound + 1) cursor = (pure answer : Production Term) cursor) :
    TermIsPrompt begins bound start := by
  have single : Prompt (fun _ => True) EndsTerm (pure answer)
      fun _ : Nat => (pure answer : Production Term) := prompt_pure answer fun _ _ => True.intro
  exact .of_enters single rfl notEnd enters

/-- A term whose first token is refused. -/
theorem TermIsPrompt.of_refused (complaint : Complaint)
    (aboutGrammar : ∀ token, complaint ≠ .anomaly token)
    (refused : term (bound + 1) start.advance = (none, start.advance.complainAtCurrent complaint))
    (again : ∀ bound (cursor : Cursor), cursor.current.kind = start.lookahead.kind ->
      cursor.current.literal = start.lookahead.literal -> (term (bound + 1) cursor).1 = none)
    (begin : begins (.keyword .null)) : TermIsPrompt begins bound start := by
  refine .refuse 1 ?_ aboutGrammar (fun bound other _ same => ?_)
    ((completed_term begin start.current).unfold
      (unfolds_reindex (fun bound => onNext (term bound)) (· + 1)))
  · rw [← start.advance_current]
    exact refused
  · apply again bound other.advance
    · rw [Cursor.advance_current, Cursor.lookahead_kind_congr same]
    · rw [Cursor.advance_current, Cursor.lookahead_literal_congr same]

/-- An integer constant is refused if its value is out of range. -/
theorem termIsPrompt_integer (kind : start.lookahead.kind = .integer)
    (begin : begins (.keyword .null)) : TermIsPrompt begins bound start := by
  cases denotes : start.lookahead.value? with
  | some value =>
      refine .of_single (.integer start.lookahead value) (by rw [kind]; decide) ?_
      intro bound cursor same
      rw [term, current_andThen, same]
      simp only [kind, denotes]
  | none =>
      refine .of_refused (.outOfRange "integer" start.lookahead.literal) (by rintro _ ⟨⟩) ?_ ?_ begin
      · rw [term, current_andThen, Cursor.advance_current]
        simp only [kind, denotes]
        rfl
      · intro bound cursor sameKind sameLiteral
        have denotes : cursor.current.value? = none := by
          unfold Token.value? at denotes ⊢
          rw [sameKind, sameLiteral]
          exact denotes
        rw [term, current_andThen]
        simp only [sameKind, kind, denotes]
        rfl

/-- A string constant is refused if a character of it is foreign. -/
theorem termIsPrompt_string (kind : start.lookahead.kind = .string)
    (begin : begins (.keyword .null)) : TermIsPrompt begins bound start := by
  cases plain : foreignCharacter? start.lookahead.literal with
  | none =>
      refine .of_single (.string start.lookahead) (by rw [kind]; decide) ?_
      intro bound cursor same
      rw [term, current_andThen, same]
      simp only [kind, plain]
  | some character =>
      refine .of_refused (.remark ("unsupported character " ++ Text.quotedCharacter character ++
        " in string constant")) (by rintro _ ⟨⟩) ?_ ?_ begin
      · rw [term, current_andThen, Cursor.advance_current]
        simp only [kind, plain]
        rfl
      · intro bound cursor sameKind sameLiteral
        rw [term, current_andThen]
        simp only [sameKind, kind, sameLiteral, plain]
        rfl

/-- A token that starts no term is refused for its class. -/
theorem termIsPrompt_other (other : ¬ StartsTerm start.lookahead.kind)
    (begin : begins (.keyword .null)) : TermIsPrompt begins bound start := by
  refine .of_refused (.currentIsNot "an expression" start.advance.current) (by rintro _ ⟨⟩) ?_ ?_ begin
  · exact term_of_not_startsTerm (start.advance_current ▸ other)
  · intro bound cursor sameKind _
    rw [term_of_not_startsTerm (sameKind ▸ other)]
    rfl

/-- A term is prompt if the terms in it are. -/
theorem termIsPrompt_succ (prompt : Prompt (· = .keyword .null) EndsTerm (onNext (term bound))
      fun bound => onNext (term bound)) (begin : begins (.keyword .null)) :
    TermIsPrompt begins bound start := by
  by_cases starts : StartsTerm start.lookahead.kind
  · generalize kind : start.lookahead.kind = found at starts
    have notEnd : start.lookahead.kind ≠ .endOfFile := by
      rw [kind]
      rintro rfl
      cases starts
    cases starts with
    | integer => exact termIsPrompt_integer kind begin
    | string => exact termIsPrompt_string kind begin
    | constant value =>
        refine .of_single (.constant start.lookahead value) notEnd ?_
        intro bound cursor same
        rw [term, current_andThen, same]
        cases value <;> simp only [kind, Constant.keyword]
    | name =>
        have opens (kind : TokenKind) (null : kind = .keyword .null) : kind ≠ .mark .rightParen := by
          rw [null]
          decide
        refine .of_enters (prompt_afterName prompt opens start.lookahead) rfl notEnd ?_
        intro bound cursor same
        rw [term, current_andThen, same]
        simp only [kind]
        rfl
    | group =>
        have inner : Prompt (· = .keyword .null) EndsTerm _ _ :=
          prompt_closed prompt .rightParen ⟨rfl, True.intro⟩ (Term.group start.lookahead)
        refine .of_enters inner rfl notEnd ?_
        intro bound cursor same
        rw [term, current_andThen, same]
        simp only [kind]
        rfl
    | unary operator =>
        have operand : Prompt (· = .keyword .null) EndsTerm
            (onNext (term bound) >>= fun operand => pure (.unary start.lookahead operator operand))
            fun bound => (onNext (term bound) >>= fun operand =>
              pure (.unary start.lookahead operator operand) : Production Term) :=
          prompt.andThen fun operand => prompt_pure _ fun _ stop => stop
        refine .of_enters operand rfl notEnd ?_
        intro bound cursor same
        rw [term, current_andThen, same]
        cases operator with
        | neg =>
            simp only [kind, UnaryOperator.mark]
            rfl
        | not =>
            simp only [kind, UnaryOperator.mark]
            rfl
  · exact termIsPrompt_other starts begin

end FirstTokens

/-- Terms are prompt.  The induction is on the bound, since every term inside of one is read with a
smaller one. -/
theorem prompt_term (bound : Nat) (begin : begins (.keyword .null)) :
    Prompt begins EndsTerm (onNext (term bound)) fun bound => onNext (term bound) := by
  refine ⟨fun start => ?_, completed_term begin⟩
  induction bound generalizing begins start with
  | zero => exact .halts 1 rfl
  | succ bound inductionHypothesis =>
      have nested : Prompt (· = .keyword .null) EndsTerm (onNext (term bound))
          fun bound => onNext (term bound) := ⟨inductionHypothesis rfl, completed_term rfl⟩
      exact Verdict.unfold (termIsPrompt_succ nested begin) unfolds_terms

end Source
end Jack
end HackToolchain
