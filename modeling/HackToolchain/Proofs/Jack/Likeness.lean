import HackToolchain.Proofs.Jack.Refusals
import HackToolchain.Proofs.Token.SourceLikeness

namespace HackToolchain
namespace Jack

/-!
# Class sources are read without a look into malformed tokens

A class keeps tokens, but it is made of well-formed ones, and no production asks a malformed token for
its text.  So on tokens that are alike every production fails or succeeds alike, and leaves diagnostics
that are alike.  What it answers does not matter for that: a part of a class is handed on as it is.
-/

namespace Source

open Production

theorem alike_exhausted :
    Alike .jack Any (exhausted : Production α) (exhausted : Production β) :=
  fun _ _ alike => ⟨.none, alike⟩

theorem alike_isFollowedBy (mark : Mark) : Alike .jack Eq (isFollowedBy mark) (isFollowedBy mark) :=
  alike_lookahead.bind fun _ _ alike => alike_pure (by rw [alike.kind])

/-- Whether a mark follows is the same on both cursors. -/
theorem alike_optional {mark : Mark} {yes no : Production α} {otherYes otherNo : Production β}
    (taken : Alike .jack Any yes otherYes) (left : Alike .jack Any no otherNo) :
    Alike .jack Any (do if ← isFollowedBy mark then yes else no)
      (do if ← isFollowedBy mark then otherYes else otherNo) := by
  refine (alike_isFollowedBy mark).bind fun follows _ same => ?_
  subst same
  split
  · exact taken
  · exact left

theorem alike_expectMark (mark : Mark) : Alike .jack Eq (expectMark mark) (expectMark mark) :=
  alike_expect _

theorem alike_name : Alike .jack Any name name :=
  (alike_expectLiteral (by decide : TokenKind.identifier ≠ .illegal)).any

/-! ## Repetition -/

section Repetition

variable {item : Production γ} (alike : Alike .jack Any item item)

include alike

theorem alike_separated (bound : Nat) :
    Alike .jack Any (separated item bound) (separated item bound) := by
  induction bound with
  | zero => exact alike_exhausted
  | succ bound inductionHypothesis =>
      refine alike.bind fun _ _ _ => (alike_isFollowedBy .comma).bind fun follows _ same => ?_
      subst same
      split
      · exact alike_advance.bind fun _ _ _ => inductionHypothesis.bind fun _ _ _ =>
          alike_pure True.intro
      · exact alike_pure True.intro

theorem alike_repeated (starts : TokenKind -> Bool) (bound : Nat) :
    Alike .jack Any (repeated starts item bound) (repeated starts item bound) := by
  induction bound with
  | zero => exact alike_exhausted
  | succ bound inductionHypothesis =>
      refine alike_lookahead.bind fun token other same => ?_
      rw [← same.kind]
      split
      · exact alike_advance.bind fun _ _ _ => alike.bind fun _ _ _ =>
          inductionHypothesis.bind fun _ _ _ => alike_pure True.intro
      · exact alike_pure True.intro

end Repetition

/-! ## Expressions -/

section Terms

variable {term : Production Term} (alike : Alike .jack Any term term)

include alike

theorem alike_chain (bound : Nat) (left other : Expression) :
    Alike .jack Any (chain term bound left) (chain term bound other) := by
  induction bound generalizing left other with
  | zero => exact alike_exhausted
  | succ bound inductionHypothesis =>
      refine alike_lookahead.bind fun token other same => ?_
      rw [← same.kind]
      cases binaryOperator? token.kind with
      | some operator =>
          exact alike_advance.bind fun _ _ _ => alike_advance.bind fun _ _ _ =>
            alike.bind fun _ _ _ => inductionHypothesis _ _
      | none => exact alike_pure True.intro

theorem alike_nextExpression (bound : Nat) :
    Alike .jack Any (nextExpression term bound) (nextExpression term bound) :=
  alike_advance.bind fun _ _ _ => alike.bind fun _ _ _ => alike_chain alike bound _ _

theorem alike_call (bound : Nat) : Alike .jack Any (call term bound) (call term bound) := by
  refine alike_current.bind fun token other _ => ?_
  refine (alike_optional ?_ ?_).bind fun target _ _ => (alike_expectMark _).bind fun _ _ _ => ?_
  · exact alike_advance.bind fun _ _ _ => alike_name.bind fun _ _ _ => alike_pure True.intro
  · exact alike_pure True.intro
  refine (alike_optional ?_ ?_).bind fun _ _ _ => (alike_expectMark _).bind fun _ _ _ => ?_
  · exact alike_pure True.intro
  · exact alike_separated (alike_nextExpression alike bound) bound
  exact alike_pure True.intro

end Terms

/-- What starts with a malformed token is not a term.  A well-formed token is the same on both cursors,
and its text is asked for only if it is a number or a string. -/
theorem alike_term (bound : Nat) : Alike .jack Any (term bound) (term bound) := by
  induction bound with
  | zero => exact alike_exhausted
  | succ bound inductionHypothesis =>
      have inner := alike_nextExpression inductionHypothesis bound
      refine alike_current.bind fun token other same => ?_
      rcases same.same with rfl | ⟨malformed, -⟩
      · split
        · rename_i isInteger
          cases token.value? with
          | some value => exact alike_pure True.intro
          | none =>
              have digits := same.keeps.isOneLine (by rw [isInteger]; exact nofun)
                (by rw [isInteger]; exact nofun) (by rw [isInteger]; exact nofun)
              exact alike_reject (Complaint.isOneLine_outOfRange (by decide) digits) _
        · cases foreignCharacter? token.literal with
          | some character =>
              refine alike_reject ?_ _
              unfold Complaint.IsOneLine Complaint.message
              rw [String.toList_append, String.toList_append]
              exact .append (.append (by decide) (Text.isOneLine_quotedCharacter _)) (by decide)
          | none => exact alike_pure True.intro
        · exact alike_pure True.intro
        · exact alike_pure True.intro
        · exact alike_pure True.intro
        · exact alike_pure True.intro
        · refine alike_lookahead.bind fun next otherNext same => ?_
          rw [← same.kind]
          split
          · exact alike_advance.bind fun _ _ _ => inner.bind fun _ _ _ =>
              (alike_expectMark _).bind fun _ _ _ => alike_pure True.intro
          · exact (alike_call inductionHypothesis bound).bind fun _ _ _ => alike_pure True.intro
          · exact (alike_call inductionHypothesis bound).bind fun _ _ _ => alike_pure True.intro
          · exact alike_pure True.intro
        · exact inner.bind fun _ _ _ => (alike_expectMark _).bind fun _ _ _ => alike_pure True.intro
        · exact alike_advance.bind fun _ _ _ => inductionHypothesis.bind fun _ _ _ =>
            alike_pure True.intro
        · exact alike_advance.bind fun _ _ _ => inductionHypothesis.bind fun _ _ _ =>
            alike_pure True.intro
        · exact alike_rejectCurrent (by decide)
      · have otherMalformed := same.kind.symm.trans malformed
        simp only [malformed, otherMalformed]
        exact alike_rejectCurrent (by decide)

theorem alike_expression (bound : Nat) : Alike .jack Any (expression bound) (expression bound) :=
  alike_nextExpression (alike_term bound) bound

/-! ## Statements -/

theorem alike_block {statement : Production Statement} (alike : Alike .jack Any statement statement)
    (bound : Nat) : Alike .jack Any (block statement bound) (block statement bound) :=
  (alike_expectMark _).bind fun _ _ _ => (alike_repeated alike _ bound).bind fun _ _ _ =>
    (alike_expectMark _).bind fun _ _ _ => alike_pure True.intro

theorem alike_condition (bound : Nat) : Alike .jack Any (condition bound) (condition bound) :=
  (alike_expectMark _).bind fun _ _ _ => (alike_expression bound).bind fun _ _ _ =>
    (alike_expectMark _).bind fun _ _ _ => alike_pure True.intro

theorem alike_statement (bound : Nat) : Alike .jack Any (statement bound) (statement bound) := by
  induction bound with
  | zero => exact alike_exhausted
  | succ bound inductionHypothesis =>
      have inner := alike_block inductionHypothesis bound
      refine alike_current.bind fun token other same => ?_
      rw [← same.kind]
      split
      · refine alike_name.bind fun _ _ _ => (alike_optional ?_ ?_).bind fun _ _ _ => ?_
        · exact alike_advance.bind fun _ _ _ => (alike_expression bound).bind fun _ _ _ =>
            (alike_expectMark _).bind fun _ _ _ => alike_pure True.intro
        · exact alike_pure True.intro
        · exact (alike_expectMark _).bind fun _ _ _ => (alike_expression bound).bind fun _ _ _ =>
            (alike_expectMark _).bind fun _ _ _ => alike_pure True.intro
      · refine (alike_condition bound).bind fun _ _ _ => inner.bind fun _ _ _ =>
          alike_lookahead.bind fun next otherNext same => ?_
        rw [← same.kind]
        split
        · exact alike_advance.bind fun _ _ _ => inner.bind fun _ _ _ => alike_pure True.intro
        · exact alike_pure True.intro
      · exact (alike_condition bound).bind fun _ _ _ => inner.bind fun _ _ _ =>
          alike_pure True.intro
      · exact (alike_expect _).bind fun _ _ _ => (alike_call (alike_term bound) bound).bind
          fun _ _ _ => (alike_expectMark _).bind fun _ _ _ => alike_pure True.intro
      · refine (alike_optional ?_ ?_).bind fun _ _ _ => (alike_expectMark _).bind fun _ _ _ =>
          alike_pure True.intro
        · exact alike_pure True.intro
        · exact (alike_expression bound).bind fun _ _ _ => alike_pure True.intro
      · exact alike_rejectCurrent (by decide)

/-! ## Declarations -/

theorem alike_typeName : Alike .jack Any typeName typeName := by
  have read (type other : TypeName) : Alike .jack Any
      (do
        advance
        return type)
      (do
        advance
        return other) :=
    alike_advance.bind fun _ _ _ => alike_pure True.intro
  refine alike_lookahead.bind fun token other same => ?_
  rw [← same.kind]
  split
  · exact read _ _
  · exact read _ _
  · exact read _ _
  · exact read _ _
  · exact alike_rejectLookahead (by decide)

theorem alike_typedNames (bound : Nat) : Alike .jack Any (typedNames bound) (typedNames bound) :=
  alike_typeName.bind fun _ _ _ => (alike_separated alike_name bound).bind fun _ _ _ =>
    (alike_expectMark _).bind fun _ _ _ => alike_pure True.intro

theorem alike_classVariables (kind : ClassVariableKind) (bound : Nat) :
    Alike .jack Any (classVariables kind bound) (classVariables kind bound) :=
  alike_current.bind fun _ _ _ => (alike_typedNames bound).bind fun _ _ _ => alike_pure True.intro

theorem alike_localVariables (bound : Nat) :
    Alike .jack Any (localVariables bound) (localVariables bound) :=
  alike_current.bind fun _ _ _ => (alike_typedNames bound).bind fun _ _ _ => alike_pure True.intro

theorem alike_parameter : Alike .jack Any parameter parameter :=
  alike_typeName.bind fun _ _ _ => alike_current.bind fun _ _ _ => alike_name.bind fun _ _ _ =>
    alike_pure True.intro

theorem alike_subroutine (kind : SubroutineKind) (bound : Nat) :
    Alike .jack Any (subroutine kind bound) (subroutine kind bound) := by
  have returns : Alike .jack Any
      (do
        if (← lookahead).kind == .keyword .void then
          advance
          return none
        else return some (← typeName))
      (do
        if (← lookahead).kind == .keyword .void then
          advance
          return none
        else return some (← typeName)) := by
    refine alike_lookahead.bind fun token other same => ?_
    rw [← same.kind]
    split
    · exact alike_advance.bind fun _ _ _ => alike_pure True.intro
    · exact alike_typeName.bind fun _ _ _ => alike_pure True.intro
  refine alike_current.bind fun _ _ _ => returns.bind fun _ _ _ => alike_name.bind fun _ _ _ =>
    (alike_expectMark _).bind fun _ _ _ => (alike_optional ?_ ?_).bind fun _ _ _ => ?_
  · exact alike_pure True.intro
  · exact alike_separated alike_parameter bound
  · exact (alike_expectMark _).bind fun _ _ _ => (alike_expectMark _).bind fun _ _ _ =>
      alike_current.bind fun _ _ _ => (alike_repeated (alike_localVariables bound) _ bound).bind
        fun _ _ _ => (alike_repeated (alike_statement bound) _ bound).bind fun _ _ _ =>
          (alike_expectMark _).bind fun _ _ _ => alike_pure True.intro

theorem alike_members (bound : Nat) : Alike .jack Any (members bound) (members bound) := by
  induction bound with
  | zero => exact alike_exhausted
  | succ bound inductionHypothesis =>
      refine alike_lookahead.bind fun token other same => ?_
      rw [← same.kind]
      dsimp only
      split
      · exact alike_advance.bind fun _ _ _ => (alike_classVariables _ bound).bind fun _ _ _ =>
          inductionHypothesis.bind fun _ _ _ => alike_pure True.intro
      · exact alike_advance.bind fun _ _ _ => (alike_subroutine _ bound).bind fun _ _ _ =>
          inductionHypothesis.bind fun _ _ _ => alike_pure True.intro
      · split
        · exact alike_advance.bind fun _ _ _ => alike_pure True.intro
        · exact alike_rejectLookahead (by decide)

theorem alike_classTree (bound : Nat) : Alike .jack Any (classTree bound) (classTree bound) := by
  refine alike_current.bind fun token other same => ?_
  rw [← same.kind]
  split
  · exact alike_name.bind fun _ _ _ => (alike_expectMark _).bind fun _ _ _ =>
      (alike_members bound).bind fun _ _ _ => (alike_expect _).bind fun _ _ _ =>
        alike_pure True.intro
  · exact alike_rejectCurrent (by decide)

end Source

/-! ## Sources -/

/-- A class is not read from malformed tokens, so that sources that are alike are the same to it. -/
theorem stream_eq_of_parsed {source other : String} {tree : Class}
    (streams : (reading.stream source).Alike .jack (reading.stream other))
    (parsed : parse source = .ok tree ∨ parse other = .ok tree) :
    reading.stream source = reading.stream other := by
  have wellFormed {text : String} (parsed : parse text = .ok tree) :
      .illegal ∉ (reading.stream text).tokens.map Token.kind := by
    have reported := parse_reports text
    rw [parsed] at reported
    cases reported with
    | accepted _ classified =>
        rw [anomaliesOf_eq, anomalies, List.map_eq_nil_iff, List.filter_eq_nil_iff] at classified
        intro malformed
        obtain ⟨token, member, illegal⟩ := List.mem_map.mp malformed
        exact classified token member (congrArg TokenKind.isAnomaly illegal)
  rcases parsed with here | there
  · exact streams.eq (wellFormed here)
  · exact streams.eq (kinds_of_alike streams.tokens ▸ wellFormed there)

/-- Sources whose tokens are alike have the same tree, or are refused alike. -/
theorem sameOutcome_parse {source other : String}
    (streams : (reading.stream source).Alike .jack (reading.stream other)) :
    SameOutcome Diagnostic.Alike (parse source) (parse other) := by
  have same (read : reading.stream source = reading.stream other) : parse source = parse other := by
    unfold parse run
    rw [read]
  cases here : parse source with
  | ok tree =>
      rw [← same (stream_eq_of_parsed streams (.inl here)), here]
      exact .accepts tree
  | error found =>
      cases there : parse other with
      | ok tree =>
          rw [same (stream_eq_of_parsed streams (.inr there)), there] at here
          cases here
      | error others =>
          obtain ⟨last, refused, rfl⟩ := classTree_fails here
          obtain ⟨otherLast, otherRefused, rfl⟩ := classTree_fails there
          have begun : (beginning source).Alike .jack (beginning other) :=
            Cursor.alike_ofStream streams.tokens streams.finish true
          have rounds : (beginning source).remaining = (beginning other).remaining := by
            exact begun.tokens.length_eq
          rw [← rounds] at otherRefused
          have walked := Source.alike_classTree ((beginning source).remaining + 1) _ _ begun
          rw [refused, otherRefused] at walked
          exact .refuses walked.2.drain.recorded

end Jack
end HackToolchain
