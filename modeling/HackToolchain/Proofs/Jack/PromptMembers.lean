import HackToolchain.Proofs.Jack.Promptness

namespace HackToolchain
namespace Jack

/-!
# Statements and declarations are prompt

A construct is completed in the shortest way: an index and an alternative are left out, and what is in
parentheses or braces is as short as it can be.
-/

open Production

namespace Source

variable {ι : Type} {begins stops : TokenKind -> Prop}

/-! ## Parts of statements -/

/-- Expressions are completed in front of whatever ends them. -/
theorem prompt_ofTerms (bound : Nat) (begin : begins (.keyword .null))
    (narrow : ∀ kind, stops kind -> EndsExpression kind) :
    Prompt begins stops (expression bound) expression :=
  prompt_expression (prompt_term bound begin) narrow

theorem prompt_enclosed (bound : Nat) (mark : Mark) (narrow : EndsExpression (.mark mark))
    (build : Expression -> β) (begin : begins (.keyword .null)) :
    Prompt begins stops
      (do
        let inner ← expression bound
        expectMark mark
        return build inner)
      fun bound => (do
        let inner ← expression bound
        expectMark mark
        return build inner : Production β) :=
  prompt_closed (prompt_term bound begin) mark narrow build

theorem prompt_condition (bound : Nat) (begin : begins (.mark .leftParen)) :
    Prompt begins (fun _ => True) (condition bound) condition := by
  have inner : Prompt (fun _ => True) (fun _ => True) _ _ :=
    prompt_enclosed bound .rightParen ⟨rfl, True.intro⟩ id True.intro
  exact (prompt_expectMark .leftParen begin).andThen fun _ => inner

theorem prompt_index (bound : Nat) (begin : begins (.mark .equal)) :
    Prompt begins (· = .mark .equal) (index bound) index := by
  have none : Prompt (fun kind => (kind == .mark .leftBracket) = false ∧ begins kind)
      (· = .mark .equal) (pure none) fun _ : Nat => (pure none : Production (Option Expression)) :=
    prompt_pure _ (by rintro _ rfl; exact ⟨rfl, begin⟩)
  have inner : Prompt (fun _ => True) (· = .mark .equal) _ _ :=
    prompt_enclosed bound .rightBracket ⟨rfl, True.intro⟩ some True.intro
  exact .optional rfl inner none

theorem prompt_value (bound : Nat) :
    Prompt (fun _ => True) (· = .mark .semicolon) (value bound) value := by
  have none : Prompt (fun kind => (kind == .mark .semicolon) = true ∧ True) (· = .mark .semicolon)
      (pure none) fun _ : Nat => (pure none : Production (Option Expression)) :=
    prompt_pure _ (by rintro _ rfl; exact ⟨rfl, True.intro⟩)
  have inner : Prompt (fun kind => (kind == .mark .semicolon) = false ∧ True) (· = .mark .semicolon)
      (expression bound) expression :=
    prompt_ofTerms bound ⟨rfl, True.intro⟩ (by rintro _ rfl; exact ⟨rfl, True.intro⟩)
  exact .choice_yes none (inner.andThen fun expression => prompt_pure (some expression) fun _ => id)

/-! ## Statements -/

/-- A statement is prompt once its first token has been met. -/
def StatementsArePrompt (bound : Nat) : Prop :=
  ∀ begins start, Verdict begins EndsStatement start
    (fun bound => startingOn startsStatement (statement bound))
    (startingOn startsStatement (statement bound) start)

/-- The statements of a body are completed by none. -/
theorem prompt_statements {bound : Nat} (prompt : StatementsArePrompt bound)
    (begin : begins (.mark .rightBrace)) :
    Prompt begins (· = .mark .rightBrace) (repeated startsStatement (statement bound) bound)
      fun bound => repeated startsStatement (statement bound) bound := by
  have repeated : Prompt begins (· = .mark .rightBrace) _ _ :=
    prompt_repeated prompt (by rintro _ rfl; exact ⟨rfl, nofun⟩) (by rintro _ rfl; exact begin) bound
  exact repeated.reindex fun bound => (bound, bound)

section Statements

variable {bound : Nat} (prompt : StatementsArePrompt bound)

include prompt

theorem prompt_block (begin : begins (.mark .leftBrace)) :
    Prompt begins (fun _ => True) (block (statement bound) bound)
      fun bound => block (statement bound) bound := by
  refine (prompt_expectMark .leftBrace begin).andThen fun _ => ?_
  exact (prompt_statements prompt True.intro).andThen fun inner => prompt_ended .rightBrace inner rfl

theorem prompt_alternative (build : Option (List Statement) -> Statement) :
    Prompt (fun _ => True) EndsStatement (alternative bound build)
      fun bound => alternative bound build := by
  have none : Prompt (fun kind => (kind == .keyword .«else») = false ∧ True) EndsStatement
      (pure (build none)) fun _ : Nat => (pure (build none) : Production Statement) :=
    prompt_pure _ fun kind ends => ⟨beq_eq_false_iff_ne.mpr ends, True.intro⟩
  have some : Prompt (fun _ => True) EndsStatement
      (block (statement bound) bound >>= fun statements => pure (build (some statements)))
      fun bound => (block (statement bound) bound >>= fun statements =>
        pure (build (some statements)) : Production Statement) :=
    (prompt_block prompt True.intro).andThen fun statements => prompt_pure _ fun _ _ => True.intro
  exact .optional rfl some none

end Statements

/-- An assignment behind its keyword. -/
def assignment (bound : Nat) (token : Token) : Production Statement := do
  let target ← name
  let index ← index bound
  expectMark .equal
  let value ← expression bound
  expectMark .semicolon
  return .assign token target index value

theorem prompt_assignment (bound : Nat) (token : Token) :
    Prompt (fun _ => True) EndsStatement (assignment bound token)
      fun bound => assignment bound token := by
  have inner (target : String) (index : Option Expression) :
      Prompt (fun _ => True) EndsStatement _ _ :=
    prompt_enclosed bound .semicolon ⟨rfl, True.intro⟩ (Statement.assign token target index) True.intro
  refine (prompt_name True.intro).andThen fun target => ?_
  refine (prompt_index bound True.intro).andThen fun index => ?_
  exact .andThen (prompt_expectMark .equal rfl) fun _ => inner target index

/-- A branch behind its keyword. -/
def branching (bound : Nat) (token : Token) : Production Statement := do
  let test ← condition bound
  let consequence ← block (statement bound) bound
  alternative bound (.branch token test consequence)

theorem prompt_branching {bound : Nat} (prompt : StatementsArePrompt bound) (token : Token) :
    Prompt (fun _ => True) EndsStatement (branching bound token)
      fun bound => branching bound token := by
  refine (prompt_condition bound True.intro).andThen fun test => ?_
  exact (prompt_block prompt True.intro).andThen fun consequence =>
    prompt_alternative prompt (.branch token test consequence)

/-- A loop behind its keyword. -/
def looping (bound : Nat) (token : Token) : Production Statement := do
  let test ← condition bound
  return .loop token test (← block (statement bound) bound)

theorem prompt_looping {bound : Nat} (prompt : StatementsArePrompt bound) (token : Token) :
    Prompt (fun _ => True) EndsStatement (looping bound token) fun bound => looping bound token := by
  refine (prompt_condition bound True.intro).andThen fun test => ?_
  exact (prompt_block prompt True.intro).andThen fun body => prompt_pure _ fun _ _ => True.intro

/-- A call for its effect behind its keyword. -/
def performing (bound : Nat) (token : Token) : Production Statement := do
  expect .identifier
  let target ← call (term bound) bound
  expectMark .semicolon
  return .perform token target

theorem prompt_performing (bound : Nat) (token : Token) :
    Prompt (fun _ => True) EndsStatement (performing bound token)
      fun bound => performing bound token := by
  have target : Prompt (fun _ => True) (· = .mark .semicolon) (call (term bound) bound)
      fun bound => call (term bound) bound :=
    (prompt_call (prompt_term bound rfl) (by rintro _ rfl; exact nofun) True.intro bound).reindex
      fun bound => (bound, bound)
  have named : Prompt (fun _ => True) (fun _ => True) (expect .identifier)
      fun _ : Nat => expect .identifier := prompt_expect (Token.proper_ofName "name") True.intro
  exact named.andThen fun _ => target.andThen fun target => prompt_ended .semicolon _ rfl

/-- A return behind its keyword. -/
def returning (bound : Nat) (token : Token) : Production Statement := do
  let value ← value bound
  expectMark .semicolon
  return .«return» token value

theorem prompt_returning (bound : Nat) (token : Token) :
    Prompt (fun _ => True) EndsStatement (returning bound token) fun bound => returning bound token :=
  (prompt_value bound).andThen fun _ => prompt_ended .semicolon _ rfl

/-- A statement behind its keyword. -/
def statementRest (bound : Nat) (token : Token) : Production Statement :=
  match token.kind with
  | .keyword .«let» => assignment bound token
  | .keyword .«if» => branching bound token
  | .keyword .«while» => looping bound token
  | .keyword .«do» => performing bound token
  | .keyword .«return» => returning bound token
  | _ => rejectCurrent "a statement"

theorem statement_succ (bound : Nat) (cursor : Cursor) :
    statement (bound + 1) cursor = statementRest bound cursor.current cursor := by
  rw [statement, current_andThen, statementRest]
  rfl

theorem prompt_statementRest {bound : Nat} (prompt : StatementsArePrompt bound) {token : Token}
    (starts : startsStatement token.kind = true) :
    Prompt (fun _ => True) EndsStatement (statementRest bound token)
      fun bound => statementRest bound token := by
  unfold startsStatement at starts
  unfold statementRest
  generalize token.kind = kind at starts
  split at starts
  · exact prompt_assignment bound token
  · exact prompt_branching prompt token
  · exact prompt_looping prompt token
  · exact prompt_performing bound token
  · exact prompt_returning bound token
  · cases starts

theorem verdict_statement_succ {start : Cursor} {bound : Nat} (prompt : StatementsArePrompt bound) :
    Verdict begins EndsStatement start (fun bound => startingOn startsStatement (statement (bound + 1)))
      (startingOn startsStatement (statement (bound + 1)) start) := by
  by_cases starts : startsStatement start.lookahead.kind = true
  · have moved (bound : Nat) (other : Cursor) (same : other.lookahead = start.lookahead) :
        startingOn startsStatement (statement (bound + 1)) other =
          statementRest bound start.lookahead other.advance := by
      unfold startingOn
      rw [same, if_pos starts, statement_succ, Cursor.advance_current, same]
    have notEnd : start.lookahead.kind ≠ .endOfFile := by
      intro atEnd
      rw [atEnd] at starts
      cases starts
    rw [moved bound start rfl]
    exact ((prompt_statementRest prompt starts).verdict start.advance).advance notEnd
      fun index other _ => moved index other
  · refine .halts 0 ?_
    unfold startingOn
    rw [if_neg starts]
    rfl

/-- Statements are prompt, by induction on the bound as terms are. -/
theorem statementsArePrompt (bound : Nat) : StatementsArePrompt bound := by
  have halts (start : Cursor) : Halts (startingOn startsStatement (statement 0)) start := by
    unfold startingOn
    by_cases starts : startsStatement start.lookahead.kind = true
    · exact ⟨1, if_pos starts⟩
    · exact ⟨0, if_neg starts⟩
  induction bound with
  | zero =>
      intro begins start
      rcases halts start with ⟨count, same⟩
      exact .halts count same
  | succ bound inductionHypothesis =>
      intro begins start
      exact (verdict_statement_succ inductionHypothesis).unfold (unfolds_bounds halts fun _ => rfl)

/-! ## Declarations -/

/-- The type that a token names. -/
def namedType? (token : Token) : Option TypeName :=
  match token.kind with
  | .keyword .int => some .int
  | .keyword .char => some .char
  | .keyword .boolean => some .boolean
  | .identifier => some (.«class» token.literal)
  | _ => none

theorem typeName_eq (start : Cursor) :
    typeName start =
      match namedType? start.lookahead with
      | some type => (some type, start.advance)
      | none => (none, start.rejectLookahead "a type") := by
  unfold typeName namedType?
  rw [lookahead_andThen]
  generalize start.lookahead.kind = kind
  cases kind with
  | keyword word => cases word <;> rfl
  | _ => rfl

theorem typeName_of_some {start : Cursor} {type : TypeName}
    (names : namedType? start.lookahead = some type) :
    typeName start = (pure type : Production TypeName) start.advance := by
  rw [typeName_eq, names]
  rfl

theorem typeName_of_none {start : Cursor} (names : namedType? start.lookahead = none) :
    typeName start = (none, start.rejectLookahead "a type") := by
  rw [typeName_eq, names]

theorem prompt_typeName (begin : begins (.keyword .int)) :
    Prompt begins (fun _ => True) typeName fun _ : ι => typeName := by
  have completed (current : Token) :
      Completed begins (fun _ => True) current [] fun _ : ι => typeName := by
    refine ⟨.int, [.ofKeyword .int], List.forall_mem_singleton.mpr (Token.proper_ofKeyword .int),
      fun _ _ _ => begin, ?_⟩
    intro index other later _ ahead _
    have looks : other.lookahead = .ofKeyword .int := Cursor.lookahead_of_tokens ahead
    exact .inl (typeName_of_some (looks ▸ rfl))
  refine ⟨fun start => ?_, completed⟩
  cases names : namedType? start.lookahead with
  | some type =>
      have read : Prompt (fun _ => True) (fun _ => True) (pure type) fun _ : ι => pure type :=
        prompt_pure type fun _ => id
      rw [typeName_of_some names]
      refine (read.verdict start.advance).advance ?_ fun index other _ same =>
        typeName_of_some (same ▸ names)
      intro atEnd
      unfold namedType? at names
      rw [atEnd] at names
      cases names
  | none =>
      refine .refuse 0 (typeName_of_none names) (fun _ => nofun) ?_ (completed start.current)
      intro index other _ same
      have sameNames : namedType? other.lookahead = none := by
        unfold namedType? at names ⊢
        rw [Cursor.lookahead_kind_congr same, Cursor.lookahead_literal_congr same]
        exact names
      rw [typeName_of_none sameNames]

theorem prompt_typedNames (bound : Nat) (begin : begins (.keyword .int)) :
    Prompt begins (fun _ => True) (typedNames bound) typedNames := by
  have names : Prompt (fun _ => True) (· = .mark .semicolon) (separated name bound)
      fun bound => separated name bound :=
    (prompt_separated (prompt_name True.intro)
      (by rintro _ rfl; exact ⟨nofun, True.intro⟩) bound).reindex fun bound => (bound, bound)
  refine (prompt_typeName begin).andThen fun type => names.andThen fun names => ?_
  exact prompt_ended .semicolon _ rfl

theorem prompt_declared (bound : Nat) (build : Token -> TypeName -> List String -> α)
    (begin : begins (.keyword .int)) :
    Prompt begins (fun _ => True) (declared bound build) fun bound => declared bound build :=
  .current fun _ => (prompt_typedNames bound begin).andThen fun _ =>
    prompt_pure _ fun _ _ => True.intro

theorem prompt_parameter (begin : begins (.keyword .int)) :
    Prompt begins (fun _ => True) parameter fun _ : ι => parameter :=
  (prompt_typeName begin).andThen fun _ => .current fun _ =>
    (prompt_name True.intro).andThen fun _ => prompt_pure _ fun _ _ => True.intro

theorem prompt_returnType :
    Prompt (fun _ => True) (fun _ => True) returnType fun _ : ι => returnType := by
  have type : Prompt (fun kind => (kind == .keyword .void) = false ∧ True) (fun _ => True)
      (typeName >>= fun type => pure (some type))
      fun _ : ι => (typeName >>= fun type => pure (some type)) :=
    (prompt_typeName ⟨rfl, True.intro⟩).andThen fun type => prompt_pure _ fun _ _ => True.intro
  have none : Prompt (fun _ => True) (fun _ => True) (pure none)
      fun _ : ι => (pure none : Production (Option TypeName)) := prompt_pure _ fun _ => id
  exact .optional rfl none type

theorem prompt_body (bound : Nat)
    (build : Token -> List LocalVariables -> List Statement -> Subroutine)
    (begin : begins (.mark .leftBrace)) :
    Prompt begins (fun _ => True) (body bound build) fun bound => body bound build := by
  have locals : Prompt (fun _ => True) (· = .mark .rightBrace)
      (repeated (· == .keyword .var) (localVariables bound) bound)
      fun bound => repeated (· == .keyword .var) (localVariables bound) bound :=
    (prompt_repeated (fun _ => verdict_startingOn
      (prompt_declared bound LocalVariables.mk True.intro) rfl)
      (by rintro _ rfl; exact ⟨rfl, True.intro⟩) (fun _ _ => True.intro) bound).reindex
      fun bound => (bound, bound)
  refine (prompt_expectMark .leftBrace begin).andThen fun _ => .current fun opening => ?_
  refine locals.andThen fun locals => ?_
  refine .andThen (prompt_statements (statementsArePrompt bound) rfl) fun statements => ?_
  exact prompt_ended .rightBrace (build opening locals statements) rfl

theorem prompt_subroutine (kind : SubroutineKind) (bound : Nat) :
    Prompt (fun _ => True) (fun _ => True) (subroutine kind bound)
      fun bound => subroutine kind bound := by
  have parameters : Prompt (fun _ => True) (· = .mark .rightParen) (listed parameter bound)
      fun bound => listed parameter bound := by
    have one : Prompt (· ≠ .mark .rightParen) (fun _ => True) parameter fun _ : Nat => parameter :=
      prompt_parameter nofun
    exact (prompt_listed one True.intro bound).reindex fun bound => (bound, bound)
  refine .current fun token => prompt_returnType.andThen fun returns => ?_
  refine (prompt_name True.intro).andThen fun routine => ?_
  refine (prompt_expectMark .leftParen True.intro).andThen fun _ => ?_
  refine parameters.andThen fun parameters => ?_
  refine .andThen (prompt_expectMark .rightParen rfl) fun _ => ?_
  exact prompt_body bound (Subroutine.mk token kind returns routine parameters) True.intro

/-! ## Members -/

section Members

variable {start : Cursor} {bound : Nat}

/-- The rest of a class behind a declaration of variables. -/
def behindVariables (bound : Nat) (kind : ClassVariableKind) :
    Production (List ClassVariables × List Subroutine) := do
  let declaration ← classVariables kind bound
  let (declarations, subroutines) ← members bound
  return (declaration :: declarations, subroutines)

/-- The rest of a class behind a subroutine. -/
def behindSubroutine (bound : Nat) (kind : SubroutineKind) :
    Production (List ClassVariables × List Subroutine) := do
  let declaration ← subroutine kind bound
  let (declarations, subroutines) ← members bound
  return (declarations, declaration :: subroutines)

theorem members_of_variables {kind : ClassVariableKind}
    (declares : classVariableKind? start.lookahead.kind = some kind) :
    members (bound + 1) start = behindVariables bound kind start.advance := by
  rw [members, lookahead_andThen]
  simp only [declares]
  rfl

theorem members_of_subroutine {kind : SubroutineKind}
    (declares : classVariableKind? start.lookahead.kind = none)
    (defines : subroutineKind? start.lookahead.kind = some kind) :
    members (bound + 1) start = behindSubroutine bound kind start.advance := by
  rw [members, lookahead_andThen]
  simp only [declares, defines]
  rfl

theorem members_of_brace (closes : start.lookahead.kind = .mark .rightBrace) :
    members (bound + 1) start = (some ([], []), start.advance) := by
  rw [members, lookahead_andThen]
  simp only [closes]
  rfl

theorem members_of_other (declares : classVariableKind? start.lookahead.kind = none)
    (defines : subroutineKind? start.lookahead.kind = none)
    (closes : start.lookahead.kind ≠ .mark .rightBrace) :
    members (bound + 1) start =
      (none, start.rejectLookahead "a class variable, a subroutine or '\x7d'") := by
  rw [members, lookahead_andThen]
  simp only [declares, defines]
  rw [if_neg fun same => closes (beq_iff_eq.mp same)]
  rfl

/-- The shortest rest of a class is its closing brace. -/
theorem completed_members (current : Token) :
    Completed (fun _ => True) stops current [] members := by
  refine ⟨([], []), [.ofMark .rightBrace],
    List.forall_mem_singleton.mpr (Token.proper_ofMark .rightBrace), fun _ _ _ => True.intro, ?_⟩
  rintro (_ | bound) other later - ahead -
  · exact .inr (halts_exhausted other)
  · exact .inl (members_of_brace (congrArg Token.kind (Cursor.lookahead_of_tokens ahead)))

theorem verdict_members_succ
    (prompt : Prompt (fun _ => True) (fun _ => True) (members bound) members) :
    Verdict (fun _ => True) (fun _ => True) start (fun bound => members (bound + 1))
      (members (bound + 1) start) := by
  cases declares : classVariableKind? start.lookahead.kind with
  | some kind =>
      have rest : Prompt (fun _ => True) (fun _ => True) (behindVariables bound kind)
          fun bound => behindVariables bound kind :=
        (prompt_declared bound (fun token => ClassVariables.mk token kind) True.intro).andThen
          fun declaration => prompt.andThen fun others => prompt_pure _ fun _ => id
      rw [members_of_variables declares]
      refine (rest.verdict start.advance).advance ?_ fun index other _ same =>
        members_of_variables (same ▸ declares)
      intro atEnd
      rw [atEnd] at declares
      cases declares
  | none =>
      cases defines : subroutineKind? start.lookahead.kind with
      | some kind =>
          have rest : Prompt (fun _ => True) (fun _ => True) (behindSubroutine bound kind)
              fun bound => behindSubroutine bound kind :=
            (prompt_subroutine kind bound).andThen fun declaration =>
              prompt.andThen fun others => prompt_pure _ fun _ => id
          rw [members_of_subroutine declares defines]
          refine (rest.verdict start.advance).advance ?_ fun index other _ same =>
            members_of_subroutine (same ▸ declares) (same ▸ defines)
          intro atEnd
          rw [atEnd] at defines
          cases defines
      | none =>
          by_cases closes : start.lookahead.kind = .mark .rightBrace
          · have nothing : Prompt (fun _ => True) (fun _ => True) (pure ([], []))
                fun _ : Nat => (pure ([], []) : Production (List ClassVariables × List Subroutine)) :=
              prompt_pure _ fun _ => id
            rw [members_of_brace closes]
            exact (nothing.verdict start.advance).advance (by rw [closes]; exact nofun)
              fun index other _ same => members_of_brace (same ▸ closes)
          · refine .refuse 0 (members_of_other declares defines closes) (fun _ => nofun) ?_
              ((completed_members start.current).unfold (unfolds_reindex members (· + 1)))
            intro index other _ same
            have kind := Cursor.lookahead_kind_congr same
            rw [members_of_other (kind ▸ declares) (kind ▸ defines) (kind ▸ closes)]

end Members

/-- The rest of a class behind its opening brace. -/
theorem prompt_members (bound : Nat) :
    Prompt (fun _ => True) (fun _ => True) (members bound) members := by
  refine ⟨fun start => ?_, completed_members⟩
  induction bound generalizing start with
  | zero => exact .halts 0 rfl
  | succ bound inductionHypothesis =>
      exact (verdict_members_succ ⟨inductionHypothesis, completed_members⟩).unfold
        (unfolds_bounds halts_exhausted fun _ => rfl)

/-- A class behind its keyword, up to its closing brace. -/
def classRest (bound : Nat) : Production (String × List ClassVariables × List Subroutine) := do
  let className ← name
  expectMark .leftBrace
  return (className, ← members bound)

theorem prompt_classRest (bound : Nat) :
    Prompt (fun _ => True) (fun _ => True) (classRest bound) classRest :=
  (prompt_name True.intro).andThen fun _ => (prompt_expectMark .leftBrace True.intro).andThen
    fun _ => (prompt_members bound).andThen fun _ => prompt_pure _ fun _ => id

end Source
end Jack
end HackToolchain
