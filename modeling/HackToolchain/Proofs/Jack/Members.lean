import HackToolchain.Proofs.Jack.Reading

namespace HackToolchain
namespace Jack

/-!
# Statements and declarations are read from their spellings

A branch goes on with an alternative, so a statement must not be followed by one.  Nothing that may
stand behind a statement in a body is an alternative, and nothing behind a declaration is another
one, so both are read to their ends.

Productions that are written inside others have names here.
-/

open Production

/-! ## Parts of statements -/

theorem statementsSpelling_eq (statements : List Statement) :
    statementsSpelling statements = statements.flatMap Statement.spelling := by
  induction statements with
  | nil => rfl
  | cons first rest inductionHypothesis =>
      rw [statementsSpelling, inductionHypothesis, List.flatMap_cons]

theorem statementsWellFormed_iff (statements : List Statement) :
    statementsWellFormed statements ↔ ∀ statement ∈ statements, statement.WellFormed := by
  induction statements with
  | nil => exact ⟨fun _ _ none => absurd none List.not_mem_nil, fun _ => True.intro⟩
  | cons first rest inductionHypothesis =>
      rw [statementsWellFormed, inductionHypothesis, List.forall_mem_cons]

theorem statementsUnplaced_eq (statements : List Statement) :
    statementsUnplaced statements = statements.map Statement.unplaced := by
  induction statements with
  | nil => rfl
  | cons first rest inductionHypothesis =>
      rw [statementsUnplaced, inductionHypothesis, List.map_cons]

/-- A token that a statement does not go on with. -/
def EndsStatement (kind : TokenKind) : Prop := kind ≠ .keyword .«else»

/-- Expressions in parentheses. -/
def conditionForm : Form Expression where
  spelling test := enclosed .leftParen test.spelling .rightParen
  fits := Expression.WellFormed
  bare := Expression.unplaced

/-- Statements in braces. -/
def blockForm : Form (List Statement) where
  spelling statements := enclosed .leftBrace (statementsSpelling statements) .rightBrace
  fits := statementsWellFormed
  bare := statementsUnplaced

/-- What may stand behind a variable that is assigned to. -/
def indexForm : Form (Option Expression) where
  spelling := indexSpelling
  fits index := ∀ inner ∈ index, inner.WellFormed
  bare := Option.map Expression.unplaced

/-- What may be returned. -/
def valueForm : Form (Option Expression) where
  spelling := valueSpelling
  fits value := ∀ inner ∈ value, inner.WellFormed
  bare := Option.map Expression.unplaced

/-- An index in brackets, if there is one. -/
def index (bound : Nat) : Production (Option Expression) := do
  if ← Source.isFollowedBy .leftBracket then
    advance
    let index ← Source.expression bound
    Source.expectMark .rightBracket
    return some index
  else return none

/-- An expression in front of a semicolon, if there is one. -/
def value (bound : Nat) : Production (Option Expression) := do
  if ← Source.isFollowedBy .semicolon then return none
  else return some (← Source.expression bound)

theorem reads_condition (bound : Nat) (stops : TokenKind -> Prop) :
    Reads (Source.condition bound) conditionForm (bound + 2) stops := by
  constructor
  · intro start last test proper done
    rcases andThen_eq_some.mp done with ⟨⟨⟩, _, opens, more⟩
    have opened := passes_expectMark proper opens
    have behind := opened.proper proper
    rcases closed_sound (reads_term bound) behind more with
      ⟨inner, passes, wellFormed, rfl⟩
    exact ⟨opened.append passes, wellFormed⟩
  · intro start last test passes wellFormed short _
    have short : test.spelling.length + 2 ≤ bound + 2 := length_enclosed _ _ _ ▸ short
    rcases closed_complete (reads_term bound) passes.2.2 wellFormed (by omega) ⟨rfl, True.intro⟩ with
      ⟨other, same, done⟩
    exact ⟨other, same, (andThen_eq (expectMark_of_passes passes)).trans (done id)⟩

theorem reads_index (bound : Nat) :
    Reads (index bound) indexForm (bound + 2) fun kind => kind ≠ .mark .leftBracket := by
  constructor
  · intro start last tree proper done
    rcases andThen_eq_some.mp done with ⟨flag, _, looks, more⟩
    rcases isFollowedBy_eq_some.mp looks with ⟨bracket, rfl⟩
    cases flag with
    | true =>
        rcases andThen_eq_some.mp more with ⟨⟨⟩, _, moves, more⟩
        cases advance_eq_some.mp moves
        have opened := Cursor.passes_mark proper (beq_iff_eq.mp bracket)
        rcases closed_sound (reads_term bound) proper.advance more with
          ⟨inner, passes, wellFormed, rfl⟩
        refine ⟨opened.append passes, ?_⟩
        rintro _ ⟨⟩
        exact wellFormed
    | false =>
        rcases pure_eq_some.mp more with ⟨rfl, rfl⟩
        exact ⟨rfl, nofun⟩
  · intro start last tree passes wellFormed short stop
    cases tree with
    | none =>
        cases passes
        refine ⟨none, rfl, ?_⟩
        exact andThen_eq (isFollowedBy_eq_some.mpr ⟨beq_eq_false_iff_ne.mpr stop, rfl⟩)
    | some inner =>
        have short : inner.spelling.length + 2 ≤ bound + 2 := length_enclosed _ _ _ ▸ short
        rcases closed_complete (reads_term bound) passes.2.2 (wellFormed inner rfl) (by omega)
          ⟨rfl, True.intro⟩ with ⟨other, same, done⟩
        refine ⟨some other, congrArg some same, ?_⟩
        refine (andThen_eq (isFollowedBy_eq_some.mpr ⟨beq_iff_eq.mpr passes.kind, rfl⟩)).trans ?_
        exact (andThen_eq (advance_eq_some.mpr rfl)).trans (done some)

theorem reads_value (bound : Nat) :
    Reads (value bound) valueForm bound fun kind => kind = .mark .semicolon := by
  constructor
  · intro start last tree proper done
    rcases andThen_eq_some.mp done with ⟨flag, _, looks, more⟩
    rcases isFollowedBy_eq_some.mp looks with ⟨-, rfl⟩
    cases flag with
    | true =>
        rcases pure_eq_some.mp more with ⟨rfl, rfl⟩
        exact ⟨rfl, nofun⟩
    | false =>
        rcases andThen_eq_some.mp more with ⟨inner, _, reading, answers⟩
        rcases pure_eq_some.mp answers with ⟨rfl, rfl⟩
        rcases (reads_expression bound).sound proper reading with ⟨passes, wellFormed⟩
        refine ⟨passes, ?_⟩
        rintro _ ⟨⟩
        exact wellFormed
  · intro start last tree passes wellFormed short stop
    cases tree with
    | none =>
        cases passes
        refine ⟨none, rfl, ?_⟩
        exact andThen_eq (isFollowedBy_eq_some.mpr ⟨beq_iff_eq.mpr stop, rfl⟩)
    | some inner =>
        have follows : EndsExpression last.lookahead.kind := stop ▸ ⟨rfl, True.intro⟩
        rcases (reads_expression bound).complete passes (wellFormed inner rfl) short follows with
          ⟨other, same, done⟩
        have noSemicolon : start.lookahead.kind ≠ .mark .semicolon := by
          intro semicolon
          rcases expression_begins inner (wellFormed inner rfl) with ⟨token, rest, spelled, begins⟩
          have passes : start.Passes inner.spelling last := passes
          rw [spelled] at passes
          rw [← passes.kind, semicolon] at begins
          exact begins
        refine ⟨some other, congrArg some same, ?_⟩
        refine (andThen_eq (isFollowedBy_eq_some.mpr
          ⟨beq_eq_false_iff_ne.mpr noSemicolon, rfl⟩)).trans ?_
        exact andThen_eq done

/-! ## Statements -/

theorem statement_begins (tree : Statement) :
    ∃ token rest, tree.spelling = token :: rest ∧ Source.startsStatement token.kind = true := by
  cases tree with
  | assign token name index value => exact ⟨_, _, rfl, rfl⟩
  | branch token condition consequence alternative => exact ⟨_, _, rfl, rfl⟩
  | loop token condition body => exact ⟨_, _, rfl, rfl⟩
  | perform token target => exact ⟨_, _, rfl, rfl⟩
  | «return» token value => exact ⟨_, _, rfl, rfl⟩

theorem endsStatement_of_starts {kind : TokenKind} (starts : Source.startsStatement kind = true) :
    EndsStatement kind := by
  rintro rfl
  cases starts

/-- What may follow the consequence of a branch, and the branch made of it. -/
def alternative (bound : Nat) (build : Option (List Statement) -> Statement) :
    Production Statement := do
  if (← lookahead).kind == .keyword .«else» then
    advance
    return build (some (← Source.block (Source.statement bound) bound))
  else return build none

section Statements

variable {bound : Nat}
  (reads : Reads (startingOn Source.startsStatement (Source.statement bound)) statementForm bound
    EndsStatement)

include reads

theorem reads_block (stops : TokenKind -> Prop) :
    Reads (Source.block (Source.statement bound) bound) blockForm (bound + 1) stops := by
  constructor
  · intro start last statements proper done
    rcases andThen_eq_some.mp done with ⟨⟨⟩, _, opens, more⟩
    have opened := passes_expectMark proper opens
    have inside := opened.proper proper
    rcases andThen_eq_some.mp more with ⟨inner, _, repeats, more⟩
    rcases repeated_sound reads bound inside repeats with ⟨passes, fits⟩
    rcases andThen_eq_some.mp more with ⟨⟨⟩, _, closes, answers⟩
    have closed := passes_expectMark (passes.proper inside) closes
    rcases pure_eq_some.mp answers with ⟨rfl, rfl⟩
    refine ⟨?_, (statementsWellFormed_iff inner).mpr fits⟩
    change start.Passes (enclosed .leftBrace (statementsSpelling inner) .rightBrace) _
    rw [statementsSpelling_eq]
    exact opened.append (passes.append closed)
  · intro start last statements passes wellFormed short _
    have short : (statementsSpelling statements).length + 2 ≤ bound + 1 :=
      length_enclosed _ _ _ ▸ short
    rcases Cursor.passes_append.mp passes.2.2 with ⟨between, front, behind⟩
    have next : between.lookahead.kind = .mark .rightBrace := behind.kind
    have noStart : Source.startsStatement between.lookahead.kind = false := next ▸ rfl
    have stop : EndsStatement between.lookahead.kind := next ▸ nofun
    have closes := expectMark_of_passes behind
    cases behind.2.2
    rw [statementsSpelling_eq] at front short
    have fewer : (statements.flatMap statementForm.spelling).length < bound := by
      change (statements.flatMap Statement.spelling).length < bound
      omega
    rcases repeated_complete reads (fun tree _ => statement_begins tree)
      (fun kind => endsStatement_of_starts) bound front
      ((statementsWellFormed_iff statements).mp wellFormed) (Nat.le_of_lt fewer) fewer noStart
      stop with ⟨others, same, done⟩
    refine ⟨others, ?_, ?_⟩
    · change statementsUnplaced others = statementsUnplaced statements
      rw [statementsUnplaced_eq, statementsUnplaced_eq]
      exact same
    · refine (andThen_eq (expectMark_of_passes passes)).trans ?_
      exact (andThen_eq done).trans (andThen_eq closes)

/-- A condition and a block come first in branches and in loops. -/
theorem guarded_sound {next : Expression -> List Statement -> Production α} {answer : α}
    {start last : Cursor} (proper : start.Proper)
    (done : (do
      let test ← Source.condition bound
      let inner ← Source.block (Source.statement bound) bound
      next test inner : Production α) start = (some answer, last)) :
    ∃ test inner middle behind,
      start.Passes (enclosed .leftParen test.spelling .rightParen) middle ∧
      middle.Passes (enclosed .leftBrace (statementsSpelling inner) .rightBrace) behind ∧
      test.WellFormed ∧ statementsWellFormed inner ∧ next test inner behind = (some answer, last) := by
  rcases andThen_eq_some.mp done with ⟨test, middle, tests, more⟩
  rcases (reads_condition bound fun _ => True).sound proper tests with ⟨tested, wellFormedTest⟩
  rcases andThen_eq_some.mp more with ⟨inner, behind, block, more⟩
  rcases (reads_block reads fun _ => True).sound (tested.proper proper) block with
    ⟨passes, wellFormed⟩
  exact ⟨test, inner, middle, behind, tested, passes, wellFormedTest, wellFormed, more⟩

theorem guarded_complete {test : Expression} {inner : List Statement} {start middle behind : Cursor}
    (tested : start.Passes (enclosed .leftParen test.spelling .rightParen) middle)
    (passes : middle.Passes (enclosed .leftBrace (statementsSpelling inner) .rightBrace) behind)
    (wellFormedTest : test.WellFormed) (wellFormed : statementsWellFormed inner)
    (shortTest : (enclosed .leftParen test.spelling .rightParen).length ≤ bound)
    (short : (enclosed .leftBrace (statementsSpelling inner) .rightBrace).length ≤ bound) :
    ∃ otherTest others, otherTest.unplaced = test.unplaced ∧
      statementsUnplaced others = statementsUnplaced inner ∧
      ∀ {α : Type} (next : Expression -> List Statement -> Production α), (do
        let test ← Source.condition bound
        let inner ← Source.block (Source.statement bound) bound
        next test inner : Production α) start = next otherTest others behind := by
  rcases (reads_condition bound fun _ => True).complete tested wellFormedTest
    (Nat.le_add_right_of_le shortTest) True.intro with ⟨otherTest, sameTest, tests⟩
  rcases (reads_block reads fun _ => True).complete passes wellFormed
    (Nat.le_add_right_of_le short) True.intro with ⟨others, same, block⟩
  exact ⟨otherTest, others, sameTest, same, fun next => (andThen_eq tests).trans (andThen_eq block)⟩

theorem alternative_sound {build : Option (List Statement) -> Statement} {start last : Cursor}
    {tree : Statement} (proper : start.Proper)
    (done : alternative bound build start = (some tree, last)) :
    ∃ statements, start.Passes (alternativeSpelling statements) last ∧
      alternativeWellFormed statements ∧ tree = build statements := by
  rcases andThen_eq_some.mp done with ⟨token, _, looks, more⟩
  rcases lookahead_eq_some.mp looks with ⟨rfl, rfl⟩
  split at more
  · rename_i follows
    rcases andThen_eq_some.mp more with ⟨⟨⟩, _, moves, more⟩
    cases advance_eq_some.mp moves
    rcases andThen_eq_some.mp more with ⟨statements, _, block, answers⟩
    rcases pure_eq_some.mp answers with ⟨rfl, rfl⟩
    have word := Cursor.passes_keyword proper (beq_iff_eq.mp follows)
    rcases (reads_block reads fun _ => True).sound proper.advance block with ⟨passes, wellFormed⟩
    exact ⟨some statements, word.append passes, wellFormed, rfl⟩
  · rcases pure_eq_some.mp more with ⟨rfl, rfl⟩
    exact ⟨none, rfl, True.intro, rfl⟩

theorem alternative_complete {statements : Option (List Statement)} {start last : Cursor}
    (passes : start.Passes (alternativeSpelling statements) last)
    (wellFormed : alternativeWellFormed statements)
    (short : (alternativeSpelling statements).length ≤ bound + 2)
    (stop : EndsStatement last.lookahead.kind) :
    ∃ others, alternativeUnplaced others = alternativeUnplaced statements ∧
      ∀ build, alternative bound build start = (some (build others), last) := by
  cases statements with
  | none =>
      cases passes
      refine ⟨none, rfl, fun build => ?_⟩
      have noElse : ¬ (start.lookahead.kind == .keyword .«else») = true :=
        fun follows => stop (beq_iff_eq.mp follows)
      refine (andThen_eq (lookahead_eq_some.mpr ⟨rfl, rfl⟩)).trans ?_
      rw [if_neg noElse]
      rfl
  | some statements =>
      have follows : (start.lookahead.kind == .keyword .«else») = true :=
        beq_iff_eq.mpr passes.kind
      rcases (reads_block reads fun _ => True).complete passes.2.2 wellFormed
        (Nat.le_of_succ_le_succ short) True.intro with ⟨others, same, done⟩
      refine ⟨some others, congrArg some same, fun build => ?_⟩
      refine (andThen_eq (lookahead_eq_some.mpr ⟨rfl, rfl⟩)).trans ?_
      rw [if_pos follows]
      exact (andThen_eq (advance_eq_some.mpr rfl)).trans (andThen_eq done)

theorem statement_sound {start last : Cursor} {tree : Statement} (proper : start.Proper)
    (done : Source.statement (bound + 1) start.advance = (some tree, last)) :
    start.Passes tree.spelling last ∧ tree.WellFormed := by
  rcases andThen_eq_some.mp done with ⟨token, _, here, more⟩
  rcases current_eq_some.mp here with ⟨rfl, rfl⟩
  rw [Cursor.advance_current] at more
  generalize kind : start.lookahead.kind = found at more
  split at more
  · have word := Cursor.passes_keyword proper kind
    rcases andThen_eq_some.mp more with ⟨name, _, names, more⟩
    rcases (reads_name bound fun _ => True).sound proper.advance names with ⟨named, -⟩
    have behindName := named.proper proper.advance
    rcases andThen_eq_some.mp more with ⟨position, _, indexes, more⟩
    rcases (reads_index bound).sound behindName indexes with ⟨indexed, wellFormedIndex⟩
    have behindIndex := indexed.proper behindName
    rcases andThen_eq_some.mp more with ⟨⟨⟩, _, equals, more⟩
    have equal := passes_expectMark behindIndex equals
    rcases closed_sound (reads_term bound) (equal.proper behindIndex) more with
      ⟨assigned, passes, wellFormed, rfl⟩
    exact ⟨word.append (named.append (indexed.append (equal.append passes))),
      And.intro word.2.1 ⟨wellFormedIndex, wellFormed⟩⟩
  · have word := Cursor.passes_keyword proper kind
    rcases guarded_sound reads proper.advance more with
      ⟨test, consequence, _, _, tested, passes, wellFormedTest, wellFormed, more⟩
    have behind := passes.proper (tested.proper proper.advance)
    rcases alternative_sound reads behind more with
      ⟨statements, passesOther, wellFormedOther, rfl⟩
    exact ⟨word.append (tested.append (passes.append passesOther)),
      And.intro word.2.1 ⟨wellFormedTest, wellFormed, wellFormedOther⟩⟩
  · have word := Cursor.passes_keyword proper kind
    rcases guarded_sound reads proper.advance more with
      ⟨test, body, _, _, tested, passes, wellFormedTest, wellFormed, answers⟩
    rcases pure_eq_some.mp answers with ⟨rfl, rfl⟩
    exact ⟨word.append (tested.append passes), And.intro word.2.1 ⟨wellFormedTest, wellFormed⟩⟩
  · have word := Cursor.passes_keyword proper kind
    rcases andThen_eq_some.mp more with ⟨⟨⟩, _, names, more⟩
    rcases expect_eq_some.mp names with ⟨named, rfl⟩
    rcases andThen_eq_some.mp more with ⟨target, _, calls, more⟩
    rcases call_sound (reads_term bound) proper.advance named calls with ⟨passes, wellFormed⟩
    rcases andThen_eq_some.mp more with ⟨⟨⟩, _, ends, answers⟩
    have ended := passes_expectMark (passes.proper proper.advance) ends
    rcases pure_eq_some.mp answers with ⟨rfl, rfl⟩
    exact ⟨word.append (passes.append ended), And.intro word.2.1 wellFormed⟩
  · have word := Cursor.passes_keyword proper kind
    rcases andThen_eq_some.mp more with ⟨returned, _, values, more⟩
    rcases (reads_value bound).sound proper.advance values with ⟨passes, wellFormed⟩
    rcases andThen_eq_some.mp more with ⟨⟨⟩, _, ends, answers⟩
    have ended := passes_expectMark (passes.proper proper.advance) ends
    rcases pure_eq_some.mp answers with ⟨rfl, rfl⟩
    exact ⟨word.append (passes.append ended), And.intro word.2.1 wellFormed⟩
  · cases more

theorem statement_complete {start last : Cursor} {tree : Statement}
    (passes : start.Passes tree.spelling last) (wellFormed : tree.WellFormed)
    (short : tree.spelling.length ≤ bound + 1) (stop : EndsStatement last.lookahead.kind) :
    ∃ other, other.unplaced = tree.unplaced ∧
      Source.statement (bound + 1) start.advance = (some other, last) := by
  rw [Source.statement, andThen_eq (current_eq_some.mpr ⟨rfl, rfl⟩), Cursor.advance_current]
  cases tree with
  | assign token name position assigned =>
      have own : start.lookahead.unplaced = token.unplaced := passes.2.1.trans wellFormed.1.symm
      have kind : start.lookahead.kind = .keyword .«let» := passes.kind
      rw [Statement.spelling, List.length_cons, List.length_cons, List.length_append,
        List.length_cons, List.length_append] at short
      have named := name_of_passes passes.2.2
      rcases Cursor.passes_append.mp passes.2.2.2.2 with ⟨between, indexed, behind⟩
      have shortIndex : (indexForm.spelling position).length ≤ bound + 2 := by
        change (indexSpelling position).length ≤ bound + 2
        omega
      have next : between.lookahead.kind ≠ .mark .leftBracket := by
        rw [behind.kind]
        exact nofun
      rcases (reads_index bound).complete indexed wellFormed.2.1 shortIndex next with
        ⟨otherIndex, sameIndex, indexes⟩
      rcases closed_complete (reads_term bound) behind.2.2 wellFormed.2.2 (by omega)
        ⟨rfl, True.intro⟩ with ⟨other, same, done⟩
      refine ⟨.assign start.lookahead name otherIndex other, ?_, ?_⟩
      · rw [Statement.unplaced, Statement.unplaced, own, same]
        exact congrArg (Statement.assign _ name · _) sameIndex
      · simp only [kind]
        refine (andThen_eq named).trans ((andThen_eq indexes).trans ?_)
        exact (andThen_eq (expectMark_of_passes behind)).trans
          (done (Statement.assign start.lookahead name otherIndex))
  | branch token test consequence statements =>
      have own : start.lookahead.unplaced = token.unplaced := passes.2.1.trans wellFormed.1.symm
      have kind : start.lookahead.kind = .keyword .«if» := passes.kind
      rw [Statement.spelling, List.length_cons, List.length_append, List.length_append] at short
      rcases Cursor.passes_append.mp passes.2.2 with ⟨middle, tested, behind⟩
      rcases Cursor.passes_append.mp behind with ⟨between, front, behind⟩
      rcases guarded_complete reads tested front wellFormed.2.1 wellFormed.2.2.1 (by omega)
        (by omega) with ⟨otherTest, others, sameTest, same, guarded⟩
      rcases alternative_complete reads behind wellFormed.2.2.2 (by omega) stop with
        ⟨alternatives, sames, done⟩
      refine ⟨.branch start.lookahead otherTest others alternatives, ?_, ?_⟩
      · rw [Statement.unplaced, Statement.unplaced, own, sameTest, same, sames]
      · simp only [kind]
        exact (guarded _).trans (done (Statement.branch start.lookahead otherTest others))
  | loop token test body =>
      have own : start.lookahead.unplaced = token.unplaced := passes.2.1.trans wellFormed.1.symm
      have kind : start.lookahead.kind = .keyword .«while» := passes.kind
      rw [Statement.spelling, List.length_cons, List.length_append] at short
      rcases Cursor.passes_append.mp passes.2.2 with ⟨between, tested, behind⟩
      rcases guarded_complete reads tested behind wellFormed.2.1 wellFormed.2.2 (by omega)
        (by omega) with ⟨otherTest, others, sameTest, same, guarded⟩
      refine ⟨.loop start.lookahead otherTest others, ?_, ?_⟩
      · rw [Statement.unplaced, Statement.unplaced, own, sameTest, same]
      · simp only [kind]
        exact guarded _
  | perform token target =>
      have own : start.lookahead.unplaced = token.unplaced := passes.2.1.trans wellFormed.1.symm
      have kind : start.lookahead.kind = .keyword .«do» := passes.kind
      rw [Statement.spelling, List.length_cons, List.length_append] at short
      rcases Cursor.passes_append.mp passes.2.2 with ⟨between, front, behind⟩
      have named : expect .identifier start.advance = (some (), start.advance.advance) :=
        expect_eq_some.mpr ⟨(call_begins front).1, rfl⟩
      rcases call_complete (reads_term bound) front wellFormed.2 (by omega) with
        ⟨other, same, done⟩
      have ends := expectMark_of_passes behind
      cases behind.2.2
      refine ⟨.perform start.lookahead other, ?_, ?_⟩
      · rw [Statement.unplaced, Statement.unplaced, own, same]
      · simp only [kind]
        exact (andThen_eq named).trans ((andThen_eq done).trans (andThen_eq ends))
  | «return» token returned =>
      have own : start.lookahead.unplaced = token.unplaced := passes.2.1.trans wellFormed.1.symm
      have kind : start.lookahead.kind = .keyword .«return» := passes.kind
      rw [Statement.spelling, List.length_cons, List.length_append] at short
      rcases Cursor.passes_append.mp passes.2.2 with ⟨between, front, behind⟩
      rcases (reads_value bound).complete front wellFormed.2
        (Nat.le_trans (Nat.le_add_right _ _) (Nat.le_of_succ_le_succ short)) behind.kind with
        ⟨other, same, done⟩
      have ends := expectMark_of_passes behind
      cases behind.2.2
      refine ⟨.return start.lookahead other, ?_, ?_⟩
      · rw [Statement.unplaced, Statement.unplaced, own]
        exact congrArg (Statement.return _ ·) same
      · simp only [kind]
        exact (andThen_eq done).trans (andThen_eq ends)

end Statements

theorem reads_statement (bound : Nat) :
    Reads (startingOn Source.startsStatement (Source.statement bound)) statementForm bound
      EndsStatement := by
  induction bound with
  | zero =>
      constructor
      · intro start last tree proper done
        exact absurd (startingOn_eq_some.mp done).2 exhausted_ne_some
      · intro start last tree passes wellFormed short stop
        have empty : tree.spelling = [] := List.length_eq_zero_iff.mp (Nat.le_zero.mp short)
        rcases statement_begins tree with ⟨token, rest, spelled, -⟩
        exact absurd (spelled.symm.trans empty) (List.cons_ne_nil token rest)
  | succ bound reads =>
      constructor
      · intro start last tree proper done
        exact statement_sound reads proper (startingOn_eq_some.mp done).2
      · intro start last tree passes wellFormed short stop
        rcases statement_complete reads passes wellFormed short stop with ⟨other, same, done⟩
        have starts : Source.startsStatement start.lookahead.kind = true := by
          rcases statement_begins tree with ⟨token, rest, spelled, starts⟩
          have passes : start.Passes tree.spelling last := passes
          rw [spelled] at passes
          rw [passes.kind]
          exact starts
        exact ⟨other, same, startingOn_eq_some.mpr ⟨starts, done⟩⟩

/-! ## Declarations -/

/-- Types with the variables that are declared to have them. -/
def typedNamesForm : Form (TypeName × List String) where
  spelling typed := typedNamesSpelling typed.1 typed.2
  fits typed := typed.2 ≠ []
  bare := id

/-- Declarations of class variables of one kind. -/
def classVariablesForm (kind : ClassVariableKind) : Form ClassVariables where
  spelling := ClassVariables.spelling
  fits declared := declared.kind = kind ∧ declared.WellFormed
  bare := ClassVariables.unplaced

/-- What a subroutine returns. -/
def returnsForm : Form (Option TypeName) := ⟨fun returns => [returnsToken returns], fun _ => True, id⟩

theorem length_typedNamesSpelling (type : TypeName) (names : List String) :
    (typedNamesSpelling type names).length =
      (commaSeparated nameForm.spelling names).length + 2 := by
  rw [typedNamesSpelling, List.length_cons, List.length_append]
  rfl

theorem reads_typedNames (bound : Nat) (stops : TokenKind -> Prop) :
    Reads (Source.typedNames bound) typedNamesForm bound stops := by
  have separated := reads_separated (reads_name bound fun _ => True) True.intro
    fun name _ => List.cons_ne_nil (Token.ofName name) []
  constructor
  · intro start last typed proper done
    rcases andThen_eq_some.mp done with ⟨type, _, types, more⟩
    rcases (reads_typeName bound fun _ => True).sound proper types with ⟨passes, -⟩
    have behind := passes.proper proper
    rcases andThen_eq_some.mp more with ⟨names, _, lists, more⟩
    rcases separated.sound behind lists with ⟨named, nonempty, -⟩
    rcases andThen_eq_some.mp more with ⟨⟨⟩, _, ends, answers⟩
    have ended := passes_expectMark (named.proper behind) ends
    rcases pure_eq_some.mp answers with ⟨rfl, rfl⟩
    exact ⟨passes.append (named.append ended), nonempty⟩
  · intro start last typed passes nonempty short _
    rcases typed with ⟨type, names⟩
    have short : (commaSeparated nameForm.spelling names).length + 2 ≤ bound :=
      length_typedNamesSpelling type names ▸ short
    have first : start.Passes [type.token] start.advance := ⟨passes.1, passes.2.1, rfl⟩
    have one : (typeForm.spelling type).length ≤ bound := by
      change 1 ≤ bound
      omega
    rcases (reads_typeName bound fun _ => True).complete first True.intro one True.intro with
      ⟨other, sameType, types⟩
    rw [show other = type from sameType] at types
    rcases Cursor.passes_append.mp passes.2.2 with ⟨between, front, behind⟩
    have next : between.lookahead.kind = .mark .semicolon := behind.kind
    have shortNames : ((separatedForm nameForm).spelling names).length ≤ bound := by
      change (commaSeparated nameForm.spelling names).length ≤ bound
      omega
    rcases separated.complete front ⟨nonempty, fun _ _ => True.intro⟩ shortNames
      ⟨next ▸ nofun, True.intro⟩ with ⟨others, same, lists⟩
    have same : others = names := by
      have same : others.map id = names.map id := same
      rw [List.map_id, List.map_id] at same
      exact same
    have ends := expectMark_of_passes behind
    cases behind.2.2
    refine ⟨(type, names), rfl, (andThen_eq types).trans ?_⟩
    rw [← same]
    exact (andThen_eq lists).trans (andThen_eq ends)

/-- What is made of a declaration's keyword, type and names. -/
def declared (bound : Nat) (build : Token -> TypeName -> List String -> α) : Production α := do
  let token ← current
  let (type, names) ← Source.typedNames bound
  return build token type names

theorem declared_sound {bound : Nat} {build : Token -> TypeName -> List String -> α} {answer : α}
    {word : Keyword} {start last : Cursor} (proper : start.Proper)
    (kind : start.lookahead.kind = .keyword word)
    (done : declared bound build start.advance = (some answer, last)) :
    ∃ type names, start.Passes (.ofKeyword word :: typedNamesSpelling type names) last ∧
      start.lookahead.unplaced = .ofKeyword word ∧ names ≠ [] ∧
      answer = build start.lookahead type names := by
  rcases andThen_eq_some.mp done with ⟨token, _, here, more⟩
  rcases current_eq_some.mp here with ⟨rfl, rfl⟩
  rw [Cursor.advance_current] at more
  have passesWord := Cursor.passes_keyword proper kind
  rcases andThen_eq_some.mp more with ⟨⟨type, names⟩, _, typed, answers⟩
  rcases (reads_typedNames bound fun _ => True).sound proper.advance typed with ⟨passes, nonempty⟩
  rcases pure_eq_some.mp answers with ⟨rfl, rfl⟩
  exact ⟨type, names, passesWord.append passes, passesWord.2.1, nonempty, rfl⟩

theorem declared_complete {bound : Nat} {word : Keyword} {type : TypeName} {names : List String}
    {start last : Cursor}
    (passes : start.Passes (.ofKeyword word :: typedNamesSpelling type names) last)
    (nonempty : names ≠ []) (short : (typedNamesSpelling type names).length ≤ bound)
    (build : Token -> TypeName -> List String -> α) :
    declared bound build start.advance = (some (build start.lookahead type names), last) := by
  have behind : start.advance.Passes (typedNamesForm.spelling (type, names)) last := passes.2.2
  rcases (reads_typedNames bound fun _ => True).complete behind nonempty short True.intro with
    ⟨_, rfl, typed⟩
  unfold declared
  rw [andThen_eq (current_eq_some.mpr ⟨rfl, rfl⟩), Cursor.advance_current, andThen_eq typed]
  rfl

theorem reads_classVariables (kind : ClassVariableKind) (bound : Nat) (stops : TokenKind -> Prop) :
    Reads (startingOn (· == .keyword kind.keyword) (Source.classVariables kind bound))
      (classVariablesForm kind) (bound + 1) stops := by
  constructor
  · intro start last tree proper done
    rcases startingOn_eq_some.mp done with ⟨starts, done⟩
    have done : declared bound (fun token => ClassVariables.mk token kind) start.advance =
        (some tree, last) := done
    rcases declared_sound proper (beq_iff_eq.mp starts) done with
      ⟨type, names, passes, own, nonempty, rfl⟩
    exact ⟨passes, rfl, own, nonempty⟩
  · rintro start last ⟨token, actual, type, names⟩ passes ⟨rfl, own, nonempty⟩ short _
    have done := declared_complete passes nonempty (Nat.le_of_succ_le_succ short)
      fun token => ClassVariables.mk token actual
    refine ⟨_, ?_, startingOn_eq_some.mpr ⟨beq_iff_eq.mpr passes.kind, done⟩⟩
    exact congrArg (ClassVariables.mk · actual type names) (passes.2.1.trans own.symm)

theorem reads_localVariables (bound : Nat) (stops : TokenKind -> Prop) :
    Reads (startingOn (· == .keyword .var) (Source.localVariables bound)) localsForm (bound + 1)
      stops := by
  constructor
  · intro start last tree proper done
    rcases startingOn_eq_some.mp done with ⟨starts, done⟩
    have done : declared bound LocalVariables.mk start.advance = (some tree, last) := done
    rcases declared_sound proper (beq_iff_eq.mp starts) done with
      ⟨type, names, passes, own, nonempty, rfl⟩
    exact ⟨passes, own, nonempty⟩
  · rintro start last ⟨token, type, names⟩ passes ⟨own, nonempty⟩ short _
    have done := declared_complete passes nonempty (Nat.le_of_succ_le_succ short) LocalVariables.mk
    refine ⟨_, ?_, startingOn_eq_some.mpr ⟨beq_iff_eq.mpr passes.kind, done⟩⟩
    exact congrArg (LocalVariables.mk · type names) (passes.2.1.trans own.symm)

theorem reads_parameter (bound : Nat) (stops : TokenKind -> Prop) :
    Reads Source.parameter parameterForm bound stops := by
  constructor
  · intro start last tree proper done
    rcases andThen_eq_some.mp done with ⟨type, _, types, more⟩
    rcases (reads_typeName 1 fun _ => True).sound proper types with ⟨passes, -⟩
    cases passes.2.2
    rcases andThen_eq_some.mp more with ⟨token, _, here, more⟩
    rcases current_eq_some.mp here with ⟨rfl, rfl⟩
    rcases andThen_eq_some.mp more with ⟨name, _, names, answers⟩
    rcases (reads_name 1 fun _ => True).sound proper.advance names with ⟨named, -⟩
    rcases pure_eq_some.mp answers with ⟨rfl, rfl⟩
    refine ⟨passes.append named, ?_⟩
    change start.advance.current.unplaced = type.token
    rw [Cursor.advance_current]
    exact passes.2.1
  · rintro start last ⟨token, type, name⟩ passes own short _
    have first : start.Passes [type.token] start.advance := ⟨passes.1, passes.2.1, rfl⟩
    rcases (reads_typeName 1 fun _ => True).complete first True.intro (Nat.le_refl 1)
      True.intro with ⟨other, same, types⟩
    rw [show other = type from same] at types
    have behind : start.advance.Passes [.ofName name] last := passes.2.2
    have named := name_of_passes behind
    cases behind.2.2
    have sameToken : start.lookahead.unplaced = token.unplaced :=
      passes.2.1.trans (Eq.symm own)
    refine ⟨⟨start.lookahead, type, name⟩, congrArg (Parameter.mk · type name) sameToken, ?_⟩
    refine (andThen_eq types).trans ((andThen_eq (current_eq_some.mpr ⟨rfl, rfl⟩)).trans ?_)
    rw [Cursor.advance_current]
    exact andThen_eq named

/-- The type that a subroutine returns, or the keyword for none. -/
def returnType : Production (Option TypeName) := do
  if (← lookahead).kind == .keyword .void then
    advance
    return none
  else return some (← Source.typeName)

theorem reads_returnType (bound : Nat) (stops : TokenKind -> Prop) :
    Reads returnType returnsForm bound stops := by
  constructor
  · intro start last returns proper done
    rcases andThen_eq_some.mp done with ⟨token, _, looks, more⟩
    rcases lookahead_eq_some.mp looks with ⟨rfl, rfl⟩
    split at more
    · rename_i void
      rcases andThen_eq_some.mp more with ⟨⟨⟩, _, moves, answers⟩
      cases advance_eq_some.mp moves
      rcases pure_eq_some.mp answers with ⟨rfl, rfl⟩
      exact ⟨Cursor.passes_keyword proper (beq_iff_eq.mp void), True.intro⟩
    · rcases andThen_eq_some.mp more with ⟨type, _, types, answers⟩
      rcases pure_eq_some.mp answers with ⟨rfl, rfl⟩
      exact ⟨((reads_typeName 1 fun _ => True).sound proper types).1, True.intro⟩
  · intro start last returns passes _ _ _
    refine ⟨returns, rfl, (andThen_eq (lookahead_eq_some.mpr ⟨rfl, rfl⟩)).trans ?_⟩
    cases returns with
    | none =>
        have void : start.lookahead.kind = .keyword .void := passes.kind
        cases passes.2.2
        rw [if_pos (beq_iff_eq.mpr void)]
        exact andThen_eq (advance_eq_some.mpr rfl)
    | some type =>
        have noVoid : start.lookahead.kind ≠ .keyword .void := by
          rw [passes.kind]
          cases type <;> exact nofun
        rcases (reads_typeName 1 fun _ => True).complete passes True.intro (Nat.le_refl 1)
          True.intro with ⟨other, same, types⟩
        rw [show other = type from same] at types
        rw [if_neg fun void => noVoid (beq_iff_eq.mp void)]
        exact andThen_eq types

/-- The body of a subroutine, and what is made of it. -/
def body (bound : Nat) (build : Token -> List LocalVariables -> List Statement -> Subroutine) :
    Production Subroutine := do
  Source.expectMark .leftBrace
  let opening ← current
  let locals ← Source.repeated (· == .keyword .var) (Source.localVariables bound) bound
  let statements ← Source.repeated Source.startsStatement (Source.statement bound) bound
  Source.expectMark .rightBrace
  return build opening locals statements

/-- The tokens of a subroutine's body. -/
def bodySpelling (locals : List LocalVariables) (statements : List Statement) : List Token :=
  enclosed .leftBrace (locals.flatMap LocalVariables.spelling ++ statementsSpelling statements)
    .rightBrace

theorem body_sound {bound : Nat}
    {build : Token -> List LocalVariables -> List Statement -> Subroutine} {tree : Subroutine}
    {start last : Cursor} (proper : start.Proper)
    (done : body bound build start = (some tree, last)) :
    ∃ opening locals statements, start.Passes (bodySpelling locals statements) last ∧
      opening.unplaced = .ofMark .leftBrace ∧ (∀ declared ∈ locals, declared.WellFormed) ∧
      statementsWellFormed statements ∧ tree = build opening locals statements := by
  rcases andThen_eq_some.mp done with ⟨⟨⟩, _, begins, more⟩
  rcases expect_eq_some.mp begins with ⟨brace, rfl⟩
  have begun := Cursor.passes_mark proper brace
  rcases andThen_eq_some.mp more with ⟨opening, _, here, more⟩
  rcases current_eq_some.mp here with ⟨rfl, rfl⟩
  rw [Cursor.advance_current] at more
  rcases andThen_eq_some.mp more with ⟨locals, _, declares, more⟩
  rcases repeated_sound (reads_localVariables bound fun _ => True) bound proper.advance declares
    with ⟨declared, wellFormedLocals⟩
  have behindLocals := declared.proper proper.advance
  rcases andThen_eq_some.mp more with ⟨statements, _, repeats, more⟩
  rcases repeated_sound (reads_statement bound) bound behindLocals repeats with
    ⟨passes, wellFormed⟩
  rcases andThen_eq_some.mp more with ⟨⟨⟩, _, ends, answers⟩
  have ended := passes_expectMark (passes.proper behindLocals) ends
  rcases pure_eq_some.mp answers with ⟨rfl, rfl⟩
  refine ⟨start.lookahead, locals, statements, ?_, begun.2.1, wellFormedLocals,
    (statementsWellFormed_iff statements).mpr wellFormed, rfl⟩
  rw [bodySpelling, statementsSpelling_eq]
  exact begun.append ((declared.append passes).append ended)

theorem localVariables_begins (tree : LocalVariables) :
    ∃ token rest, tree.spelling = token :: rest ∧ (token.kind == .keyword .var) = true :=
  ⟨_, _, rfl, rfl⟩

/-- Behind the declarations of a body stands no other. -/
theorem statements_begin {statements : List Statement} {start last : Cursor}
    (passes : start.Passes (statements.flatMap Statement.spelling) last)
    (brace : last.lookahead.kind = .mark .rightBrace) :
    (start.lookahead.kind == .keyword .var) = false := by
  cases statements with
  | nil =>
      cases passes
      rw [brace]
      rfl
  | cons first rest =>
      rcases statement_begins first with ⟨token, others, spelled, starts⟩
      rw [List.flatMap_cons, spelled] at passes
      rw [passes.kind]
      refine beq_eq_false_iff_ne.mpr fun var => ?_
      rw [var] at starts
      cases starts

theorem body_complete {bound : Nat} {locals : List LocalVariables} {statements : List Statement}
    {start last : Cursor} (passes : start.Passes (bodySpelling locals statements) last)
    (wellFormedLocals : ∀ declared ∈ locals, declared.WellFormed)
    (wellFormed : statementsWellFormed statements)
    (short : (bodySpelling locals statements).length ≤ bound) :
    ∃ otherLocals others, otherLocals.map LocalVariables.unplaced =
        locals.map LocalVariables.unplaced ∧
      statementsUnplaced others = statementsUnplaced statements ∧
      ∀ build, body bound build start = (some (build start.lookahead otherLocals others), last) := by
  rw [bodySpelling, statementsSpelling_eq] at passes short
  rw [length_enclosed, List.length_append] at short
  have begins := expectMark_of_passes passes
  rcases Cursor.passes_append.mp passes.2.2 with ⟨between, front, behind⟩
  rcases Cursor.passes_append.mp front with ⟨middle, declared, front⟩
  have brace : between.lookahead.kind = .mark .rightBrace := behind.kind
  have noStart : Source.startsStatement between.lookahead.kind = false := brace ▸ rfl
  have stop : EndsStatement between.lookahead.kind := brace ▸ nofun
  have fewLocals : (locals.flatMap localsForm.spelling).length < bound := by
    change (locals.flatMap LocalVariables.spelling).length < bound
    omega
  have few : (statements.flatMap statementForm.spelling).length < bound := by
    change (statements.flatMap Statement.spelling).length < bound
    omega
  rcases repeated_complete (reads_localVariables bound fun _ => True)
    (fun tree _ => localVariables_begins tree) (fun _ _ => True.intro) bound declared
    wellFormedLocals (Nat.le_succ_of_le (Nat.le_of_lt fewLocals)) fewLocals
    (statements_begin front brace) True.intro with ⟨otherLocals, sameLocals, declares⟩
  rcases repeated_complete (reads_statement bound) (fun tree _ => statement_begins tree)
    (fun kind => endsStatement_of_starts) bound front
    ((statementsWellFormed_iff statements).mp wellFormed) (Nat.le_of_lt few) few noStart stop with
    ⟨others, same, repeats⟩
  have ends := expectMark_of_passes behind
  cases behind.2.2
  refine ⟨otherLocals, others, sameLocals, ?_, fun build => ?_⟩
  · rw [statementsUnplaced_eq, statementsUnplaced_eq]
    exact same
  · refine (andThen_eq begins).trans ((andThen_eq (current_eq_some.mpr ⟨rfl, rfl⟩)).trans ?_)
    rw [Cursor.advance_current]
    exact (andThen_eq declares).trans ((andThen_eq repeats).trans (andThen_eq ends))

theorem subroutine_sound {kind : SubroutineKind} {bound : Nat} {start last : Cursor}
    {tree : Subroutine} (proper : start.Proper)
    (word : start.lookahead.kind = .keyword kind.keyword)
    (done : Source.subroutine kind bound start.advance = (some tree, last)) :
    start.Passes tree.spelling last ∧ tree.kind = kind ∧ tree.WellFormed := by
  rcases andThen_eq_some.mp done with ⟨token, _, here, more⟩
  rcases current_eq_some.mp here with ⟨rfl, rfl⟩
  rw [Cursor.advance_current] at more
  have worded := Cursor.passes_keyword proper word
  rcases andThen_eq_some.mp more with ⟨returns, _, types, more⟩
  rcases (reads_returnType 1 fun _ => True).sound proper.advance types with ⟨typed, -⟩
  have behindType := typed.proper proper.advance
  rcases andThen_eq_some.mp more with ⟨name, _, names, more⟩
  rcases (reads_name 1 fun _ => True).sound behindType names with ⟨named, -⟩
  have behindName := named.proper behindType
  rcases andThen_eq_some.mp more with ⟨⟨⟩, _, opens, more⟩
  have opened := passes_expectMark behindName opens
  have inside := opened.proper behindName
  rcases andThen_eq_some.mp more with ⟨parameters, _, lists, more⟩
  rcases listed_sound (reads_parameter bound fun _ => True) inside lists with
    ⟨passes, wellFormedParameters⟩
  rcases andThen_eq_some.mp more with ⟨⟨⟩, _, closes, more⟩
  have closed := passes_expectMark (passes.proper inside) closes
  rcases body_sound (closed.proper (passes.proper inside)) more with
    ⟨opening, locals, statements, behind, brace, wellFormedLocals, wellFormed, rfl⟩
  refine ⟨?_, rfl, worded.2.1, brace, wellFormedParameters, wellFormedLocals, wellFormed⟩
  have parenthesized := opened.append (passes.append closed)
  exact worded.append (typed.append (named.append (parenthesized.append behind)))

theorem parameter_begins (tree : Parameter) :
    ∃ token rest, tree.spelling = token :: rest ∧ token.kind ≠ .mark .rightParen := by
  refine ⟨tree.type.token, [.ofName tree.name], rfl, ?_⟩
  cases tree.type <;> exact nofun

theorem subroutine_complete {bound : Nat} {start last : Cursor} {tree : Subroutine}
    (passes : start.Passes tree.spelling last) (wellFormed : tree.WellFormed)
    (short : tree.spelling.length ≤ bound + 1) :
    ∃ other, other.unplaced = tree.unplaced ∧
      Source.subroutine tree.kind bound start.advance = (some other, last) := by
  rcases tree with ⟨token, kind, returns, name, parameters, opening, locals, statements⟩
  have own : start.lookahead.unplaced = token.unplaced := passes.2.1.trans wellFormed.token.symm
  have typed : start.advance.Passes [returnsToken returns] start.advance.advance :=
    ⟨passes.2.2.1, passes.2.2.2.1, rfl⟩
  rcases (reads_returnType 1 fun _ => True).complete typed True.intro (Nat.le_refl 1)
    True.intro with ⟨otherType, sameType, types⟩
  rw [show otherType = returns from sameType] at types
  have named := name_of_passes passes.2.2.2.2
  rcases Cursor.passes_append.mp passes.2.2.2.2.2.2 with ⟨middle, parenthesized, behind⟩
  have opens := expectMark_of_passes parenthesized
  rcases Cursor.passes_append.mp parenthesized.2.2 with ⟨between, front, closing⟩
  have closes := expectMark_of_passes closing
  have closed : between.lookahead.kind = .mark .rightParen := closing.kind
  cases closing.2.2
  have lengths : (commaSeparated parameterForm.spelling parameters).length + 2 +
      (bodySpelling locals statements).length + 3 ≤ bound + 1 := by
    rw [← length_enclosed .leftParen _ .rightParen, ← List.length_append]
    exact short
  have few : (commaSeparated parameterForm.spelling parameters).length ≤ bound := by omega
  have fewInside : (bodySpelling locals statements).length ≤ bound := by omega
  rcases listed_complete (reads_parameter bound fun _ => True) True.intro True.intro
    (fun tree _ => parameter_begins tree) front wellFormed.parameters few closed with
    ⟨others, sameParameters, lists⟩
  rcases body_complete behind wellFormed.locals wellFormed.statements fewInside with
    ⟨otherLocals, otherStatements, sameLocals, sameStatements, done⟩
  have brace : between.advance.lookahead.unplaced = opening.unplaced :=
    behind.2.1.trans wellFormed.opening.symm
  refine ⟨⟨start.lookahead, kind, returns, name, others, between.advance.lookahead, otherLocals,
    otherStatements⟩, ?_, ?_⟩
  · have sameParameters : others.map Parameter.unplaced = parameters.map Parameter.unplaced :=
      sameParameters
    simp only [Subroutine.unplaced, own, brace, sameParameters, sameLocals, sameStatements]
  · refine (andThen_eq (current_eq_some.mpr ⟨rfl, rfl⟩)).trans ?_
    rw [Cursor.advance_current]
    refine (andThen_eq types).trans ((andThen_eq named).trans ((andThen_eq opens).trans ?_))
    refine (andThen_eq lists).trans ((andThen_eq closes).trans ?_)
    exact done fun opening locals statements =>
      ⟨start.lookahead, kind, returns, name, others, opening, locals, statements⟩

end Jack
end HackToolchain
