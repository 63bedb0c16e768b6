import HackToolchain.Proofs.Jack.Generation
import HackToolchain.Proofs.Jack.Members
import HackToolchain.Proofs.Token.Complaints

namespace HackToolchain
namespace Jack

/-!
# Failing classes complain

Every production of a class source settles under its bound.  A production that nests hands a bound to
its parts that is smaller by one, and has passed a token before it starts on them.

So the reading of a whole class never ends at a bound, and a source that is not a class is refused with
at least one diagnostic.
-/

namespace Source

open Production

variable {bound rounds room : Nat} {start : Cursor}

theorem isFollowedBy_andThen (mark : Mark) (next : Bool -> Production α) :
    (isFollowedBy mark >>= next) start = next (start.lookahead.kind == .mark mark) start := rfl

theorem mark_ne_endOfFile (mark : Mark) : TokenKind.mark mark ≠ .endOfFile := nofun

theorem answered_expectMark (mark : Mark) : Answered start.remaining (expectMark mark start) :=
  answered_expect_proper (mark_ne_endOfFile mark)

theorem answered_name : Answered start.remaining (name start) := answered_expectLiteral nofun

theorem settles_name (bound : Nat) : Settles bound name :=
  fun _ _ => answered_name.mono (Nat.le_succ _)

theorem answered_typeName : Answered start.remaining (typeName start) := by
  unfold typeName
  rw [lookahead_andThen]
  dsimp only
  generalize kind : start.lookahead.kind = found
  split
  case h_5 => exact answered_rejectLookahead _
  all_goals
    exact answered_pure _ (Cursor.advance_remaining_lt (by rw [kind]; exact nofun))

/-! ## Repetition -/

theorem settles_separated {item : Production α} (settles : Settles bound item) (below : rounds ≤ bound) :
    Settles rounds (separated item rounds) := by
  induction rounds with
  | zero => exact fun start none => absurd none (Nat.not_lt_zero _)
  | succ rounds inductionHypothesis =>
      intro start fits
      unfold separated
      refine (settles start (Nat.lt_of_lt_of_le fits below)).andThen fun first behind left => ?_
      rw [isFollowedBy_andThen]
      split
      · rename_i comma
        have fewer := behind.advance_remaining_lt (by rw [eq_of_beq comma]; exact mark_ne_endOfFile _)
        refine (inductionHypothesis (Nat.le_of_succ_le below) behind.advance (by omega)).andThen
          fun others last left => answered_pure _ ?_
        omega
      · exact answered_pure _ left

theorem settles_repeated {item : Production α} {starts : TokenKind -> Bool}
    (proper : starts .endOfFile = false) (settles : Settles bound item) (below : rounds ≤ bound) :
    Settles rounds (repeated starts item rounds) := by
  induction rounds with
  | zero => exact fun start none => absurd none (Nat.not_lt_zero _)
  | succ rounds inductionHypothesis =>
      intro start fits
      unfold repeated
      rw [lookahead_andThen]
      split
      · rename_i here
        have fewer := start.advance_remaining_lt fun atEnd => by
          rw [atEnd, proper] at here
          cases here
        rw [advance_andThen]
        refine (settles start.advance (by omega)).andThen fun first behind left => ?_
        refine (inductionHypothesis (Nat.le_of_succ_le below) behind (by omega)).andThen
          fun others last left => answered_pure _ ?_
        omega
      · exact answered_pure _ (Nat.lt_succ_self _)

/-! ## Expressions -/

theorem settles_chain {term : Production Term} (settles : Settles bound term) (below : rounds ≤ bound)
    (left : Expression) : Settles rounds (chain term rounds left) := by
  induction rounds generalizing left with
  | zero => exact fun start none => absurd none (Nat.not_lt_zero _)
  | succ rounds inductionHypothesis =>
      intro start fits
      unfold chain
      rw [lookahead_andThen]
      cases here : binaryOperator? start.lookahead.kind with
      | some operator =>
        have fewer := start.advance_remaining_lt fun atEnd => by
          rw [atEnd] at here
          cases here
        have noMore := start.advance.advance_remaining_le
        dsimp only
        rw [advance_andThen, advance_andThen]
        refine (settles start.advance.advance (by omega)).andThen fun right behind left => ?_
        refine (inductionHypothesis (Nat.le_of_succ_le below) _ behind (by omega)).mono ?_
        omega
      | none => exact answered_pure _ (Nat.lt_succ_self _)

/-- An expression needs the bound for the tokens behind the current one. -/
theorem answered_nextExpression {term : Production Term} (settles : Settles bound term)
    (fits : start.advance.remaining < bound) :
    Answered (start.advance.remaining + 1) (nextExpression term bound start) := by
  unfold nextExpression
  rw [advance_andThen]
  refine (settles start.advance fits).andThen fun first behind left => ?_
  exact (settles_chain settles (Nat.le_refl bound) _ behind (by omega)).mono (by omega)

theorem settles_nextExpression {term : Production Term} (settles : Settles bound term) :
    Settles bound (nextExpression term bound) := by
  intro start fits
  have noMore := start.advance_remaining_le
  exact (answered_nextExpression settles (by omega)).mono (by omega)

/-- Items in front of a closing parenthesis need none of the tokens behind it. -/
theorem answered_listed {item : Production α} (settles : Settles bound item)
    (fits : start.remaining < bound) : Answered (start.remaining + 1) (listed item bound start) := by
  unfold listed
  rw [isFollowedBy_andThen]
  split
  · exact answered_pure _ (Nat.lt_succ_self _)
  · exact settles_separated settles (Nat.le_refl bound) start fits

theorem answered_target (token : Token) : Answered (start.remaining + 1) (target token start) := by
  unfold target
  rw [isFollowedBy_andThen]
  split
  · have noMore := start.advance_remaining_le
    rw [advance_andThen]
    refine answered_name.andThen fun routine behind left => answered_pure _ ?_
    omega
  · exact answered_pure _ (Nat.lt_succ_self _)

theorem answered_call {term : Production Term} (settles : Settles bound term)
    (fits : start.remaining ≤ bound) : Answered (start.remaining + 1) (call term bound start) := by
  unfold call
  rw [current_andThen]
  refine (answered_target start.current).andThen fun names behind left => ?_
  rcases names with ⟨qualifier, routine⟩
  refine (answered_expectMark .leftParen).andThen fun _ opened inside => ?_
  refine (answered_listed (settles_nextExpression settles) (by omega)).andThen
    fun values closing left => ?_
  refine (answered_expectMark .rightParen).andThen fun _ last left => answered_pure _ ?_
  omega

theorem settles_term (bound : Nat) : Settles bound (term bound) := by
  induction bound with
  | zero => exact fun start none => absurd none (Nat.not_lt_zero _)
  | succ bound settles =>
      intro start fits
      have below : start.remaining ≤ bound := Nat.le_of_lt_succ fits
      -- A term that nests has a token of its own in front of what it holds.
      have onToken (proper : start.current.kind ≠ .endOfFile) :
          start.advance.remaining < start.remaining := by
        have here := Cursor.remaining_of_current proper
        rw [Cursor.advance_remaining]
        omega
      unfold term
      rw [current_andThen]
      generalize kind : start.current.kind = found
      split
      case h_1 =>
        cases start.current.value? with
        | some value => exact answered_pure _ (Nat.lt_succ_self _)
        | none => exact answered_reject fun _ => nofun
      case h_2 =>
        cases foreignCharacter? start.current.literal with
        | some character => exact answered_reject fun _ => nofun
        | none => exact answered_pure _ (Nat.lt_succ_self _)
      case h_7 =>
        rw [lookahead_andThen]
        generalize follows : start.lookahead.kind = next
        split
        · have fewer := start.advance_remaining_lt (by rw [follows]; exact mark_ne_endOfFile _)
          rw [advance_andThen]
          refine (settles_nextExpression settles start.advance (by omega)).andThen
            fun index behind left => ?_
          refine (answered_expectMark .rightBracket).andThen fun _ last left => answered_pure _ ?_
          omega
        · exact (answered_call settles below).andThen fun _ last left => answered_pure _ left
        · exact (answered_call settles below).andThen fun _ last left => answered_pure _ left
        · exact answered_pure _ (Nat.lt_succ_self _)
      case h_8 =>
        have fewer := onToken (by rw [kind]; exact mark_ne_endOfFile _)
        refine (answered_nextExpression settles (by omega)).andThen fun inner behind left => ?_
        refine (answered_expectMark .rightParen).andThen fun _ last left => answered_pure _ ?_
        omega
      case h_9 =>
        have fewer := onToken (by rw [kind]; exact mark_ne_endOfFile _)
        rw [advance_andThen]
        refine (settles start.advance (by omega)).andThen fun inner last left => answered_pure _ ?_
        omega
      case h_10 =>
        have fewer := onToken (by rw [kind]; exact mark_ne_endOfFile _)
        rw [advance_andThen]
        refine (settles start.advance (by omega)).andThen fun inner last left => answered_pure _ ?_
        omega
      case h_11 => exact answered_rejectCurrent _
      all_goals exact answered_pure _ (Nat.lt_succ_self _)

theorem settles_expression (bound : Nat) : Settles bound (expression bound) :=
  settles_nextExpression (settles_term bound)

/-! ## Statements -/

theorem answered_block {statement : Production Statement} (settles : Settles bound statement)
    (fits : start.remaining ≤ bound) :
    Answered start.remaining (block statement bound start) := by
  unfold block
  refine (answered_expectMark .leftBrace).andThen fun _ opened inside => ?_
  refine (settles_repeated rfl settles (Nat.le_refl bound) opened (by omega)).andThen
    fun statements behind left => ?_
  refine (answered_expectMark .rightBrace).andThen fun _ last left => answered_pure _ ?_
  omega

theorem answered_condition (fits : start.remaining ≤ bound) :
    Answered start.remaining (condition bound start) := by
  unfold condition
  refine (answered_expectMark .leftParen).andThen fun _ opened inside => ?_
  refine (settles_expression bound opened (by omega)).andThen fun test behind left => ?_
  refine (answered_expectMark .rightParen).andThen fun _ last left => answered_pure _ ?_
  omega

theorem settles_index (bound : Nat) : Settles bound (index bound) := by
  intro start fits
  unfold index
  rw [isFollowedBy_andThen]
  split
  · have noMore := start.advance_remaining_le
    rw [advance_andThen]
    refine (settles_expression bound start.advance (by omega)).andThen fun index behind left => ?_
    refine (answered_expectMark .rightBracket).andThen fun _ last left => answered_pure _ ?_
    omega
  · exact answered_pure _ (Nat.lt_succ_self _)

/-- A value to return stands behind a token, as an expression does. -/
theorem answered_value (onToken : start.current.kind ≠ .endOfFile) (fits : start.remaining ≤ bound) :
    Answered (start.remaining + 1) (value bound start) := by
  have here := Cursor.remaining_of_current onToken
  have fewer := start.advance_remaining
  unfold value
  rw [isFollowedBy_andThen]
  split
  · exact answered_pure _ (Nat.lt_succ_self _)
  · refine (answered_nextExpression (settles_term bound) (by omega)).andThen
      fun value last left => answered_pure _ ?_
    omega

theorem answered_alternative (settles : Settles bound (statement bound))
    (build : Option (List Statement) -> Statement) (fits : start.remaining ≤ bound) :
    Answered (start.remaining + 1) (alternative bound build start) := by
  unfold alternative
  rw [lookahead_andThen]
  split
  · have noMore := start.advance_remaining_le
    rw [advance_andThen]
    refine (answered_block settles (by omega)).andThen fun statements last left => answered_pure _ ?_
    omega
  · exact answered_pure _ (Nat.lt_succ_self _)

theorem settles_statement (bound : Nat) : Settles bound (statement bound) := by
  induction bound with
  | zero => exact fun start none => absurd none (Nat.not_lt_zero _)
  | succ bound settles =>
      intro start fits
      have below : start.remaining ≤ bound := Nat.le_of_lt_succ fits
      unfold statement
      rw [current_andThen]
      generalize kind : start.current.kind = found
      split
      case h_1 =>
        refine answered_name.andThen fun target named left => ?_
        refine (settles_index bound named (by omega)).andThen fun index indexed left => ?_
        refine (answered_expectMark .equal).andThen fun _ equal left => ?_
        refine (settles_expression bound equal (by omega)).andThen fun value behind left => ?_
        refine (answered_expectMark .semicolon).andThen fun _ last left => answered_pure _ ?_
        omega
      case h_2 =>
        refine (answered_condition below).andThen fun test tested left => ?_
        refine (answered_block settles (by omega)).andThen fun consequence behind left => ?_
        exact (answered_alternative settles _ (by omega)).mono (by omega)
      case h_3 =>
        refine (answered_condition below).andThen fun test tested left => ?_
        refine (answered_block settles (by omega)).andThen fun body last left => answered_pure _ ?_
        omega
      case h_4 =>
        refine (answered_expect_proper (by decide)).andThen fun _ named left => ?_
        refine (answered_call (settles_term bound) (by omega)).andThen fun target behind left => ?_
        refine (answered_expectMark .semicolon).andThen fun _ last left => answered_pure _ ?_
        omega
      case h_5 =>
        have onToken : start.current.kind ≠ .endOfFile := by rw [kind]; exact nofun
        refine (answered_value onToken below).andThen fun value behind left => ?_
        refine (answered_expectMark .semicolon).andThen fun _ last left => answered_pure _ ?_
        omega
      case h_6 => exact answered_rejectCurrent _

/-! ## Declarations -/

theorem settles_typedNames (bound : Nat) : Settles bound (typedNames bound) := by
  intro start fits
  unfold typedNames
  refine answered_typeName.andThen fun type behind left => ?_
  refine (settles_separated (settles_name bound) (Nat.le_refl bound) behind (by omega)).andThen
    fun names behind left => ?_
  refine (answered_expectMark .semicolon).andThen fun _ last left => answered_pure _ ?_
  omega

theorem settles_classVariables (kind : ClassVariableKind) (bound : Nat) :
    Settles bound (classVariables kind bound) := by
  intro start fits
  unfold classVariables
  rw [current_andThen]
  exact (settles_typedNames bound start fits).andThen fun names last left => answered_pure _ left

theorem settles_localVariables (bound : Nat) : Settles bound (localVariables bound) := by
  intro start fits
  unfold localVariables
  rw [current_andThen]
  exact (settles_typedNames bound start fits).andThen fun names last left => answered_pure _ left

theorem settles_parameter (bound : Nat) : Settles bound parameter := by
  intro start fits
  unfold parameter
  refine answered_typeName.andThen fun type behind left => ?_
  rw [current_andThen]
  refine answered_name.andThen fun name last left => answered_pure _ ?_
  omega

theorem answered_returnType : Answered (start.remaining + 1) (returnType start) := by
  unfold returnType
  rw [lookahead_andThen]
  split
  · exact answered_pure _ (Nat.lt_succ_of_le start.advance_remaining_le)
  · refine answered_typeName.andThen fun type last left => answered_pure _ ?_
    omega

theorem answered_body (build : Token -> List LocalVariables -> List Statement -> Subroutine)
    (fits : start.remaining ≤ bound) : Answered start.remaining (body bound build start) := by
  unfold body
  refine (answered_expectMark .leftBrace).andThen fun _ opened inside => ?_
  rw [current_andThen]
  refine (settles_repeated rfl (settles_localVariables bound) (Nat.le_refl bound) opened
    (by omega)).andThen fun locals declared left => ?_
  refine (settles_repeated rfl (settles_statement bound) (Nat.le_refl bound) declared
    (by omega)).andThen fun statements behind left => ?_
  refine (answered_expectMark .rightBrace).andThen fun _ last left => answered_pure _ ?_
  omega

theorem settles_subroutine (kind : SubroutineKind) (bound : Nat) :
    Settles bound (subroutine kind bound) := by
  intro start fits
  unfold subroutine
  rw [current_andThen]
  refine answered_returnType.andThen fun type typed left => ?_
  refine answered_name.andThen fun routine named left => ?_
  refine (answered_expectMark .leftParen).andThen fun _ opened inside => ?_
  refine (answered_listed (settles_parameter bound) (by omega)).andThen
    fun parameters closing left => ?_
  refine (answered_expectMark .rightParen).andThen fun _ closed left => ?_
  exact (answered_body _ (by omega)).mono (by omega)

theorem settles_members (bound : Nat) : Settles bound (members bound) := by
  induction bound with
  | zero => exact fun start none => absurd none (Nat.not_lt_zero _)
  | succ bound settles =>
      intro start fits
      unfold members
      rw [lookahead_andThen]
      dsimp only
      generalize follows : start.lookahead.kind = next
      have passes (proper : start.lookahead.kind ≠ .endOfFile) := start.advance_remaining_lt proper
      rw [follows] at passes
      cases declares : classVariableKind? next with
      | some kind =>
          have fewer := passes fun atEnd => by
            rw [atEnd] at declares
            cases declares
          dsimp only
          rw [advance_andThen]
          refine (settles_classVariables kind bound start.advance (by omega)).andThen
            fun declaration behind left => ?_
          refine (settles behind (by omega)).andThen fun others last left => answered_pure _ ?_
          omega
      | none =>
          cases defines : subroutineKind? next with
          | some kind =>
              have fewer := passes fun atEnd => by
                rw [atEnd] at defines
                cases defines
              dsimp only
              rw [advance_andThen]
              refine (settles_subroutine kind bound start.advance (by omega)).andThen
                fun declaration behind left => ?_
              refine (settles behind (by omega)).andThen fun others last left => answered_pure _ ?_
              omega
          | none =>
              dsimp only
              split
              · exact answered_pure _ (Nat.lt_succ_of_le start.advance_remaining_le)
              · exact answered_rejectLookahead _

theorem settles_classTree (bound : Nat) : Settles bound (classTree bound) := by
  intro start fits
  unfold classTree
  rw [current_andThen]
  split
  · refine answered_name.andThen fun className named left => ?_
    refine (answered_expectMark .leftBrace).andThen fun _ opened inside => ?_
    refine (settles_members bound opened (by omega)).andThen fun read behind left => ?_
    refine (answered_expect .endOfFile (Nat.lt_succ_of_le behind.advance_remaining_le)).andThen
      fun _ last left => answered_pure _ ?_
    omega
  · exact answered_rejectCurrent _

end Source

/-- A source that is not a class is refused with a reason. -/
theorem parse_error_ne_nil {source : String} {diagnostics : List Diagnostic}
    (failed : parse source = .error diagnostics) : diagnostics ≠ [] := by
  let start := Cursor.ofStream (reading.stream source) true
  have answered : Production.Answered (start.remaining + 1)
      (Source.classTree (start.remaining + 1) start) :=
    Source.settles_classTree (start.remaining + 1) start (Nat.lt_succ_self _)
  unfold parse at failed
  rcases done : run source with ⟨answer, last⟩
  rw [done] at failed
  cases answer with
  | some tree => cases failed
  | none =>
      cases failed
      apply Cursor.report_ne_nil
      unfold run at done
      dsimp only at done
      rcases read : Source.classTree (start.remaining + 1) start with ⟨_ | tree, behind⟩
      · rw [read] at done answered
        cases done
        exact Cursor.hasErrors_advanceBy answered.hasErrors _
      · rw [read] at done
        dsimp only at done
        split at done
        · rename_i recorded
          cases done
          exact Cursor.hasErrors_advanceBy recorded _
        · cases done

/-! ## Errors of the generator -/

theorem message_unresolved_ne_empty (className : String) (position : Position) (name : String) :
    (Failure.refused (.unresolved className position name)).message ≠ "" := by
  unfold Failure.message CompileError.message
  iterate 8 refine append_ne_empty ?_ _
  decide

theorem message_aborted_ne_empty (abort : Abort) : (Failure.aborted abort).message ≠ "" := by
  cases abort
  decide

/-- Wherever the emission stops, the reason has a wording. -/
def StopsAloud (emission : Emission α) : Prop :=
  ∀ labels failure, (emission labels).result = .error failure -> failure.message ≠ ""

namespace StopsAloud

theorem pure (value : α) : StopsAloud (Pure.pure value : Emission α) := nofun

theorem emit (commands : List Vm.Command) : StopsAloud (Emission.emit commands) := nofun

theorem freshLabel (base : LabelBase) : StopsAloud (Emission.freshLabel base) := nofun

theorem stop {failure : Failure} (worded : failure.message ≠ "") :
    StopsAloud (Emission.stop failure : Emission α) := by
  intro labels other same
  cases same
  exact worded

theorem bind {first : Emission α} {next : α -> Emission β} (aloud : StopsAloud first)
    (goesOn : ∀ value, StopsAloud (next value)) : StopsAloud (first >>= next) := by
  intro labels failure stopped
  change (Emission.andThen first next labels).result = .error failure at stopped
  unfold Emission.andThen at stopped
  rcases written : first labels with ⟨commands, between, value | value⟩
  · rw [written] at stopped
    cases stopped
    exact aloud labels _ (by rw [written])
  · rw [written] at stopped
    exact goesOn value between failure stopped

theorem resolve (scopes : Scopes) (name : String) (position : Position) :
    StopsAloud (scopes.resolve name position) := by
  unfold Scopes.resolve
  split
  · exact pure _
  · exact stop (message_unresolved_ne_empty _ _ _)

theorem receiver (scopes : Scopes) (qualifier : Option String) (routine : String) :
    StopsAloud (Code.receiver scopes qualifier routine) := by
  unfold Code.receiver
  split
  · exact (emit _).bind fun _ => pure _
  · split
    · exact (emit _).bind fun _ => pure _
    · exact pure _

mutual

theorem term (scopes : Scopes) : (tree : Term) -> StopsAloud (Code.term scopes tree)
  | .integer _ _ => emit _
  | .string _ => emit _
  | .constant _ _ => emit _
  | .variable _ => (resolve scopes _ _).bind fun _ => emit _
  | .element _ index => (resolve scopes _ _).bind fun _ => (emit _).bind fun _ =>
      (expression scopes index).bind fun _ => emit _
  | .call target => call scopes target
  | .group _ inner => expression scopes inner
  | .unary _ _ operand => (term scopes operand).bind fun _ => emit _

theorem expression (scopes : Scopes) :
    (tree : Expression) -> StopsAloud (Code.expression scopes tree)
  | .term first => term scopes first
  | .binary left _ right => (expression scopes left).bind fun _ =>
      (term scopes right).bind fun _ => emit _

theorem call (scopes : Scopes) : (tree : Call) -> StopsAloud (Code.call scopes tree)
  | .mk _ _ _ values => (receiver scopes _ _).bind fun _ => (arguments scopes values).bind fun _ => emit _

theorem arguments (scopes : Scopes) :
    (values : List Expression) -> StopsAloud (Code.arguments scopes values)
  | [] => pure _
  | first :: rest => (expression scopes first).bind fun _ => arguments scopes rest

end

mutual

theorem statement (scopes : Scopes) : (tree : Statement) -> StopsAloud (Code.statement scopes tree)
  | .assign _ _ none value => (expression scopes value).bind fun _ => (resolve scopes _ _).bind fun _ => emit _
  | .assign _ _ (some index) value => (resolve scopes _ _).bind fun _ => (emit _).bind fun _ =>
      (expression scopes index).bind fun _ => (emit _).bind fun _ =>
        (expression scopes value).bind fun _ => emit _
  | .branch _ condition consequence none => (expression scopes condition).bind fun _ =>
      (emit _).bind fun _ => (freshLabel _).bind fun _ => (emit _).bind fun _ =>
        (statements scopes consequence).bind fun _ => emit _
  | .branch _ condition consequence (some alternative) => (expression scopes condition).bind fun _ =>
      (emit _).bind fun _ => (freshLabel _).bind fun _ => (freshLabel _).bind fun _ =>
        (emit _).bind fun _ => (statements scopes consequence).bind fun _ => (emit _).bind fun _ =>
          (statements scopes alternative).bind fun _ => emit _
  | .loop _ condition body => (freshLabel _).bind fun _ => (freshLabel _).bind fun _ =>
      (emit _).bind fun _ => (expression scopes condition).bind fun _ => (emit _).bind fun _ =>
        (statements scopes body).bind fun _ => emit _
  | .perform _ target => (call scopes target).bind fun _ => emit _
  | .«return» _ none => emit _
  | .«return» _ (some value) => (expression scopes value).bind fun _ => emit _

theorem statements (scopes : Scopes) :
    (trees : List Statement) -> StopsAloud (Code.statements scopes trees)
  | [] => pure _
  | first :: rest => (statement scopes first).bind fun _ => statements scopes rest

end

theorem subroutine (className : String) (ofClass : Scope) (routine : Subroutine) :
    StopsAloud (Code.subroutine className ofClass routine) := by
  unfold Code.subroutine
  split
  · exact (emit _).bind fun _ => statements _ _
  · exact stop (message_aborted_ne_empty _)

theorem subroutines (className : String) (ofClass : Scope) (routines : List Subroutine) :
    StopsAloud (Code.subroutines className ofClass routines) := by
  induction routines with
  | nil => exact pure _
  | cons first rest inductionHypothesis =>
      exact (subroutine className ofClass first).bind fun _ => inductionHypothesis

end StopsAloud

theorem message_ne_empty_of_compileClass {tree : Class} {failure : Failure}
    (failed : compileClass tree = .error failure) : failure.message ≠ "" := by
  rw [compileClass_eq] at failed
  cases scope : Code.classScope tree.declarations with
  | error abort =>
      rw [scope] at failed
      cases failed
      exact message_aborted_ne_empty abort
  | ok ofClass =>
      rw [scope] at failed
      dsimp only at failed
      cases stopped : (Code.subroutines tree.name ofClass tree.subroutines {}).result with
      | ok value =>
          rw [stopped] at failed
          cases failed
      | error reason =>
          rw [stopped] at failed
          cases failed
          exact StopsAloud.subroutines tree.name ofClass tree.subroutines {} _ stopped

/-- Whatever keeps a source from being compiled has a wording. -/
theorem message_ne_empty_of_compile {source : String} {failure : Failure}
    (failed : compile source = .error failure) : failure.message ≠ "" := by
  cases parsed : parse source with
  | ok tree =>
      rw [compile_of_parse_ok parsed] at failed
      exact message_ne_empty_of_compileClass failed
  | error diagnostics =>
      rw [compile_of_parse_error parsed] at failed
      cases failed
      exact Diagnostic.joined_ne_empty (parse_error_ne_nil parsed)

end Jack
end HackToolchain
