import HackToolchain.Proofs.Jack.Spelling

namespace HackToolchain
namespace Jack

/-!
# Productions read what trees spell

Every production of a class source passes exactly the tokens that its answer spells, and answers every
tree whose spelling it is given.  A production is followed by a token that it cannot go on with, so
that no choice at a token is ever taken back.

A production that starts on its first token is looked at from the token in front of it, like those
that start behind the current token.
-/

open Production

/-! ## Forms -/

/-- Items with commas between them. -/
def separatedForm (form : Form α) : Form (List α) where
  spelling := commaSeparated form.spelling
  fits items := items ≠ [] ∧ ∀ item ∈ items, form.fits item
  bare := List.map form.bare

/-- Names. -/
def nameForm : Form String := ⟨fun name => [.ofName name], fun _ => True, id⟩

/-- Types. -/
def typeForm : Form TypeName := ⟨fun type => [type.token], fun _ => True, id⟩

/-- Parameters. -/
def parameterForm : Form Parameter :=
  ⟨Parameter.spelling, Parameter.WellFormed, Parameter.unplaced⟩

/-- Terms. -/
def termForm : Form Term := ⟨Term.spelling, Term.WellFormed, Term.unplaced⟩

/-- Expressions. -/
def expressionForm : Form Expression :=
  ⟨Expression.spelling, Expression.WellFormed, Expression.unplaced⟩

/-- Statements. -/
def statementForm : Form Statement :=
  ⟨Statement.spelling, Statement.WellFormed, Statement.unplaced⟩

/-- Declarations of local variables. -/
def localsForm : Form LocalVariables :=
  ⟨LocalVariables.spelling, LocalVariables.WellFormed, LocalVariables.unplaced⟩

/-! ## Small productions -/

section Small

variable {start last : Cursor}

theorem isFollowedBy_eq_some {mark : Mark} {flag : Bool} :
    Source.isFollowedBy mark start = (some flag, last) ↔
      (start.lookahead.kind == .mark mark) = flag ∧ start = last := by
  change (some (start.lookahead.kind == .mark mark), start) = (some flag, last) ↔ _
  rw [Prod.mk.injEq, Option.some.injEq]

theorem exhausted_ne_some {value : α} : Source.exhausted start ≠ (some value, last) := nofun

theorem passes_expectMark {mark : Mark} (proper : start.Proper)
    (done : Source.expectMark mark start = (some (), last)) :
    start.Passes [.ofMark mark] last := by
  rcases expect_eq_some.mp done with ⟨kind, rfl⟩
  exact Cursor.passes_mark proper kind

theorem expectMark_of_passes {mark : Mark} {behind : List Token}
    (passes : start.Passes (.ofMark mark :: behind) last) :
    Source.expectMark mark start = (some (), start.advance) :=
  expect_eq_some.mpr ⟨passes.kind, rfl⟩

theorem name_of_passes {name : String} {behind : List Token}
    (passes : start.Passes (.ofName name :: behind) last) :
    Source.name start = (some name, start.advance) :=
  expectLiteral_eq_some.mpr ⟨passes.kind, passes.literal, rfl⟩

theorem reads_name (bound : Nat) (stops : TokenKind -> Prop) :
    Reads Source.name nameForm bound stops := by
  constructor
  · intro start last name proper done
    rcases expectLiteral_eq_some.mp done with ⟨kind, rfl, rfl⟩
    exact ⟨Cursor.passes_name kind, True.intro⟩
  · intro start last name passes _ _ _
    cases passes.2.2
    exact ⟨name, rfl, name_of_passes passes⟩

theorem reads_typeName (bound : Nat) (stops : TokenKind -> Prop) :
    Reads Source.typeName typeForm bound stops := by
  have read {start last : Cursor} {type other : TypeName}
      (done : (do advance; return type : Production TypeName) start = (some other, last)) :
      type = other ∧ start.advance = last := by
    rcases andThen_eq_some.mp done with ⟨⟨⟩, _, moves, answers⟩
    cases advance_eq_some.mp moves
    exact pure_eq_some.mp answers
  constructor
  · intro start last type proper done
    rcases andThen_eq_some.mp done with ⟨token, _, looks, more⟩
    rcases lookahead_eq_some.mp looks with ⟨rfl, rfl⟩
    refine ⟨?_, True.intro⟩
    dsimp only at more
    generalize kind : start.lookahead.kind = found at more
    split at more
    · rcases read more with ⟨rfl, rfl⟩
      exact Cursor.passes_keyword proper kind
    · rcases read more with ⟨rfl, rfl⟩
      exact Cursor.passes_keyword proper kind
    · rcases read more with ⟨rfl, rfl⟩
      exact Cursor.passes_keyword proper kind
    · rcases read more with ⟨rfl, rfl⟩
      exact Cursor.passes_name kind
    · cases more
  · intro start last type passes _ _ _
    cases passes.2.2
    have kind := passes.kind
    refine ⟨type, rfl, ?_⟩
    unfold Source.typeName
    rw [andThen_eq (lookahead_eq_some.mpr ⟨rfl, rfl⟩)]
    cases type with
    | int =>
        simp only [show start.lookahead.kind = .keyword .int from kind]
        rfl
    | char =>
        simp only [show start.lookahead.kind = .keyword .char from kind]
        rfl
    | boolean =>
        simp only [show start.lookahead.kind = .keyword .boolean from kind]
        rfl
    | «class» name =>
        simp only [show start.lookahead.kind = .identifier from kind,
          show start.lookahead.literal = name from passes.literal]
        rfl

end Small

/-! ## Repetition -/

section Repetition

variable {item : Production α} {form : Form α} {bound : Nat} {stops : TokenKind -> Prop}

theorem separated_sound (reads : Reads item form bound stops) (rounds : Nat) {start last : Cursor}
    {items : List α} (proper : start.Proper)
    (done : Source.separated item rounds start = (some items, last)) :
    start.Passes (commaSeparated form.spelling items) last ∧ items ≠ [] ∧
      ∀ item ∈ items, form.fits item := by
  induction rounds generalizing start items with
  | zero => exact absurd done exhausted_ne_some
  | succ rounds inductionHypothesis =>
      rcases andThen_eq_some.mp done with ⟨first, _, one, more⟩
      rcases reads.sound proper one with ⟨passes, fits⟩
      rcases andThen_eq_some.mp more with ⟨flag, _, looks, more⟩
      rcases isFollowedBy_eq_some.mp looks with ⟨kind, rfl⟩
      cases flag with
      | false =>
          rcases pure_eq_some.mp more with ⟨rfl, rfl⟩
          rw [commaSeparated, List.flatMap_nil, List.append_nil]
          exact ⟨passes, List.cons_ne_nil first [], List.forall_mem_singleton.mpr fits⟩
      | true =>
          rcases andThen_eq_some.mp more with ⟨⟨⟩, _, moves, more⟩
          cases advance_eq_some.mp moves
          rcases andThen_eq_some.mp more with ⟨rest, _, others, answers⟩
          rcases pure_eq_some.mp answers with ⟨rfl, rfl⟩
          have comma := Cursor.passes_mark (passes.proper proper) (beq_iff_eq.mp kind)
          rcases inductionHypothesis (passes.proper proper).advance others with
            ⟨behind, some, all⟩
          refine ⟨?_, List.cons_ne_nil first rest, List.forall_mem_cons.mpr ⟨fits, all⟩⟩
          cases rest with
          | nil => exact absurd rfl some
          | cons second rest => exact passes.append (comma.append behind)

theorem separated_complete (reads : Reads item form bound stops) (comma : stops (.mark .comma))
    (nonempty : ∀ value, form.fits value -> form.spelling value ≠ []) (rounds : Nat)
    {start last : Cursor} {items : List α}
    (passes : start.Passes (commaSeparated form.spelling items) last) (some : items ≠ [])
    (fits : ∀ item ∈ items, form.fits item)
    (short : (commaSeparated form.spelling items).length ≤ bound)
    (enough : (commaSeparated form.spelling items).length ≤ rounds)
    (notComma : last.lookahead.kind ≠ .mark .comma) (stop : stops last.lookahead.kind) :
    ∃ others, others.map form.bare = items.map form.bare ∧
      Source.separated item rounds start = (.some others, last) := by
  induction rounds generalizing start items with
  | zero =>
      cases items with
      | nil => exact absurd rfl some
      | cons first rest =>
          have empty := List.length_eq_zero_iff.mp (Nat.le_zero.mp enough)
          exact absurd (List.append_eq_nil_iff.mp empty).1
            (nonempty first (fits first List.mem_cons_self))
  | succ rounds inductionHypothesis =>
      cases items with
      | nil => exact absurd rfl some
      | cons first rest =>
          have fitsFirst := fits first List.mem_cons_self
          have long := List.length_pos_iff.mpr (nonempty first fitsFirst)
          rw [commaSeparated, List.length_append] at short enough
          rcases Cursor.passes_append.mp passes with ⟨between, front, behind⟩
          cases rest with
          | nil =>
              cases behind
              rcases reads.complete front fitsFirst (by omega) stop with ⟨other, same, done⟩
              refine ⟨[other], congrArg (· :: []) same, ?_⟩
              rw [Source.separated, andThen_eq done, andThen_eq
                (isFollowedBy_eq_some.mpr ⟨beq_eq_false_iff_ne.mpr notComma, rfl⟩)]
              rfl
          | cons second rest =>
              rw [List.flatMap_cons, List.length_append, List.length_cons] at short enough
              have next : between.lookahead.kind = .mark .comma := behind.kind
              have remaining : between.advance.Passes
                  (commaSeparated form.spelling (second :: rest)) last := behind.2.2
              have length : (commaSeparated form.spelling (second :: rest)).length =
                  (form.spelling second).length + (rest.flatMap fun item =>
                    .ofMark .comma :: form.spelling item).length := List.length_append
              rcases reads.complete front fitsFirst (by omega) (next ▸ comma) with
                ⟨other, same, done⟩
              rcases inductionHypothesis remaining (List.cons_ne_nil second rest)
                (fun item member => fits item (List.mem_cons_of_mem first member)) (by omega)
                (by omega) with ⟨others, sames, dones⟩
              refine ⟨other :: others, by rw [List.map_cons, List.map_cons, same, sames], ?_⟩
              rw [Source.separated, andThen_eq done, andThen_eq
                (isFollowedBy_eq_some.mpr ⟨beq_iff_eq.mpr next, rfl⟩), if_pos rfl,
                andThen_eq (advance_eq_some.mpr rfl), andThen_eq dones]
              rfl

theorem reads_separated (reads : Reads item form bound stops) (comma : stops (.mark .comma))
    (nonempty : ∀ value, form.fits value -> form.spelling value ≠ []) :
    Reads (Source.separated item bound) (separatedForm form) bound
      fun kind => kind ≠ .mark .comma ∧ stops kind :=
  ⟨fun proper done => separated_sound reads bound proper done,
    fun passes fits short stop =>
      separated_complete reads comma nonempty bound passes fits.1 fits.2 short short stop.1 stop.2⟩

variable {starts : TokenKind -> Bool}

theorem repeated_sound (reads : Reads (startingOn starts item) form bound stops)
    (rounds : Nat) {start last : Cursor} {items : List α} (proper : start.Proper)
    (done : Source.repeated starts item rounds start = (some items, last)) :
    start.Passes (items.flatMap form.spelling) last ∧ ∀ item ∈ items, form.fits item := by
  induction rounds generalizing start items with
  | zero => exact absurd done exhausted_ne_some
  | succ rounds inductionHypothesis =>
      rcases andThen_eq_some.mp done with ⟨token, _, looks, more⟩
      rcases lookahead_eq_some.mp looks with ⟨rfl, rfl⟩
      split at more
      · rename_i here
        rcases andThen_eq_some.mp more with ⟨⟨⟩, _, moves, more⟩
        cases advance_eq_some.mp moves
        rcases andThen_eq_some.mp more with ⟨first, _, one, more⟩
        rcases andThen_eq_some.mp more with ⟨rest, _, others, answers⟩
        rcases pure_eq_some.mp answers with ⟨rfl, rfl⟩
        rcases reads.sound proper (startingOn_eq_some.mpr ⟨here, one⟩) with ⟨passes, fits⟩
        rcases inductionHypothesis (passes.proper proper) others with ⟨behind, all⟩
        exact ⟨passes.append behind, List.forall_mem_cons.mpr ⟨fits, all⟩⟩
      · rcases pure_eq_some.mp more with ⟨rfl, rfl⟩
        exact ⟨rfl, fun _ none => absurd none List.not_mem_nil⟩

/-- Behind repeated items stands a token that none of them starts with, nor goes on with. -/
theorem repeated_complete (reads : Reads (startingOn starts item) form bound stops)
    (begins : ∀ value, form.fits value ->
      ∃ token rest, form.spelling value = token :: rest ∧ starts token.kind = true)
    (goesOn : ∀ kind, starts kind = true -> stops kind) (rounds : Nat) {start last : Cursor}
    {items : List α} (passes : start.Passes (items.flatMap form.spelling) last)
    (fits : ∀ item ∈ items, form.fits item)
    (short : (items.flatMap form.spelling).length ≤ bound)
    (enough : (items.flatMap form.spelling).length < rounds)
    (noStart : starts last.lookahead.kind = false) (stop : stops last.lookahead.kind) :
    ∃ others, others.map form.bare = items.map form.bare ∧
      Source.repeated starts item rounds start = (some others, last) := by
  induction rounds generalizing start items with
  | zero => exact absurd enough (Nat.not_lt_zero _)
  | succ rounds inductionHypothesis =>
      cases items with
      | nil =>
          cases passes
          refine ⟨[], rfl, ?_⟩
          rw [Source.repeated, andThen_eq (lookahead_eq_some.mpr ⟨rfl, rfl⟩), noStart]
          rfl
      | cons first rest =>
          have fitsFirst := fits first List.mem_cons_self
          have fitsRest (item : α) (member : item ∈ rest) :=
            fits item (List.mem_cons_of_mem first member)
          rcases begins first fitsFirst with ⟨token, others, spelled, starting⟩
          rw [List.flatMap_cons, List.length_append] at short enough
          rw [List.flatMap_cons] at passes
          rcases Cursor.passes_append.mp passes with ⟨between, front, behind⟩
          have long : 0 < (form.spelling first).length := by
            rw [spelled]
            exact Nat.succ_pos others.length
          have next : stops between.lookahead.kind := by
            cases rest with
            | nil =>
                cases behind
                exact stop
            | cons second rest =>
                rcases begins second (fitsRest second List.mem_cons_self) with
                  ⟨token, others, spelled, starting⟩
                rw [List.flatMap_cons, spelled] at behind
                rw [behind.kind]
                exact goesOn token.kind starting
          rcases reads.complete front fitsFirst (by omega) next with ⟨other, same, started⟩
          rcases startingOn_eq_some.mp started with ⟨here, done⟩
          rcases inductionHypothesis behind fitsRest (by omega) (by omega) with
            ⟨others, sames, dones⟩
          refine ⟨other :: others, by rw [List.map_cons, List.map_cons, same, sames], ?_⟩
          rw [Source.repeated, andThen_eq (lookahead_eq_some.mpr ⟨rfl, rfl⟩), if_pos here,
            andThen_eq (advance_eq_some.mpr rfl), andThen_eq done, andThen_eq dones]
          rfl

/-- Items in front of a closing parenthesis, of which there may be none. -/
def listed (item : Production α) (bound : Nat) : Production (List α) := do
  if ← Source.isFollowedBy .rightParen then return []
  else Source.separated item bound

theorem listed_sound (reads : Reads item form bound stops) {start last : Cursor} {items : List α}
    (proper : start.Proper)
    (done : listed item bound start = (some items, last)) :
    start.Passes (commaSeparated form.spelling items) last ∧ ∀ item ∈ items, form.fits item := by
  rcases andThen_eq_some.mp done with ⟨flag, _, looks, more⟩
  rcases isFollowedBy_eq_some.mp looks with ⟨-, rfl⟩
  cases flag with
  | true =>
      rcases pure_eq_some.mp more with ⟨rfl, rfl⟩
      exact ⟨rfl, fun _ none => absurd none List.not_mem_nil⟩
  | false =>
      rcases separated_sound reads bound proper more with ⟨passes, -, fits⟩
      exact ⟨passes, fits⟩

theorem listed_complete (reads : Reads item form bound stops) (comma : stops (.mark .comma))
    (closed : stops (.mark .rightParen)) (begins : ∀ value, form.fits value ->
      ∃ token rest, form.spelling value = token :: rest ∧ token.kind ≠ .mark .rightParen)
    {start last : Cursor} {items : List α}
    (passes : start.Passes (commaSeparated form.spelling items) last)
    (fits : ∀ item ∈ items, form.fits item)
    (short : (commaSeparated form.spelling items).length ≤ bound)
    (closing : last.lookahead.kind = .mark .rightParen) :
    ∃ others, others.map form.bare = items.map form.bare ∧
      listed item bound start = (some others, last) := by
  cases items with
  | nil =>
      cases passes
      refine ⟨[], rfl, ?_⟩
      rw [listed, andThen_eq (isFollowedBy_eq_some.mpr ⟨beq_iff_eq.mpr closing, rfl⟩)]
      rfl
  | cons first rest =>
      have nonempty (value : α) (fits : form.fits value) : form.spelling value ≠ [] := by
        rcases begins value fits with ⟨token, rest, spelled, -⟩
        rw [spelled]
        exact List.cons_ne_nil token rest
      have opens : start.lookahead.kind ≠ .mark .rightParen := by
        rcases begins first (fits first List.mem_cons_self) with ⟨token, rest, spelled, other⟩
        rw [commaSeparated, spelled] at passes
        rw [passes.kind]
        exact other
      have stop : last.lookahead.kind ≠ .mark .comma ∧ stops last.lookahead.kind := by
        rw [closing]
        exact ⟨by simp, closed⟩
      rcases separated_complete reads comma nonempty bound passes (List.cons_ne_nil first rest) fits
        short short stop.1 stop.2 with ⟨others, sames, dones⟩
      refine ⟨others, sames, ?_⟩
      rw [listed, andThen_eq (isFollowedBy_eq_some.mpr ⟨beq_eq_false_iff_ne.mpr opens, rfl⟩)]
      exact dones

end Repetition

/-! ## Expressions -/

/-- A token that a variable does not go on with. -/
def EndsTerm : TokenKind -> Prop
  | .mark .leftBracket => False
  | .mark .leftParen => False
  | .mark .period => False
  | _ => True

/-- A token that an expression does not go on with. -/
def EndsExpression (kind : TokenKind) : Prop :=
  Source.binaryOperator? kind = none ∧ EndsTerm kind

theorem binaryOperator?_eq_some {kind : TokenKind} {operator : BinaryOperator} :
    Source.binaryOperator? kind = some operator ↔ kind = .mark operator.mark := by
  constructor
  · intro found
    unfold Source.binaryOperator? at found
    split at found
    · have same := List.find?_some found
      rw [beq_iff_eq.mp same]
    · cases found
  · rintro rfl
    cases operator <;> rfl

theorem endsTerm_operator (operator : BinaryOperator) : EndsTerm (.mark operator.mark) := by
  cases operator <;> exact True.intro

/-- The number of operators in a chain of terms. -/
def Expression.operators : Expression -> Nat
  | .term _ => 0
  | .binary left _ _ => left.operators + 1

theorem term_spelling_ne_nil (tree : Term) : tree.spelling ≠ [] := by
  cases tree with
  | call target =>
      rcases target with ⟨token, qualifier, name, values⟩
      cases qualifier <;> exact nofun
  | _ => exact nofun

theorem operators_lt_length (tree : Expression) : tree.operators < tree.spelling.length := by
  cases tree with
  | term first => exact List.length_pos_iff.mpr (term_spelling_ne_nil first)
  | binary left operator right =>
      have fewer := operators_lt_length left
      rw [Expression.operators, Expression.spelling, List.length_append, List.length_cons]
      omega

section Expressions

variable {term : Production Term} {bound : Nat}
  (reads : Reads (fun start => term start.advance) termForm bound EndsTerm)

include reads

theorem chain_sound (rounds : Nat) {start last : Cursor} {left whole : Expression}
    (proper : start.Proper) (wellFormed : left.WellFormed)
    (done : Source.chain term rounds left start = (some whole, last)) :
    ∃ passed, start.Passes passed last ∧ whole.spelling = left.spelling ++ passed ∧
      whole.WellFormed := by
  induction rounds generalizing start left with
  | zero => exact absurd done exhausted_ne_some
  | succ rounds inductionHypothesis =>
      rcases andThen_eq_some.mp done with ⟨token, _, looks, more⟩
      rcases lookahead_eq_some.mp looks with ⟨rfl, rfl⟩
      cases found : Source.binaryOperator? start.lookahead.kind with
      | none =>
          simp only [found] at more
          rcases pure_eq_some.mp more with ⟨rfl, rfl⟩
          exact ⟨[], rfl, (List.append_nil _).symm, wellFormed⟩
      | some operator =>
          simp only [found] at more
          rcases andThen_eq_some.mp more with ⟨⟨⟩, _, moves, more⟩
          cases advance_eq_some.mp moves
          rcases andThen_eq_some.mp more with ⟨⟨⟩, _, moves, more⟩
          cases advance_eq_some.mp moves
          rcases andThen_eq_some.mp more with ⟨right, _, one, more⟩
          have mark := Cursor.passes_mark proper (binaryOperator?_eq_some.mp found)
          rcases reads.sound proper.advance one with ⟨passes, fits⟩
          have both : (Expression.binary left operator right).WellFormed :=
            And.intro wellFormed fits
          rcases inductionHypothesis (passes.proper proper.advance) both more with
            ⟨passed, behind, spelled, all⟩
          refine ⟨_, mark.append (passes.append behind), ?_, all⟩
          rw [spelled, Expression.spelling, List.append_assoc]
          rfl

theorem nextExpression_sound {start last : Cursor} {tree : Expression} (proper : start.Proper)
    (done : Source.nextExpression term bound start = (some tree, last)) :
    start.Passes tree.spelling last ∧ tree.WellFormed := by
  rcases andThen_eq_some.mp done with ⟨⟨⟩, _, moves, more⟩
  cases advance_eq_some.mp moves
  rcases andThen_eq_some.mp more with ⟨first, _, one, more⟩
  rcases reads.sound proper one with ⟨passes, fits⟩
  have single : (Expression.term first).WellFormed := fits
  rcases chain_sound reads bound (passes.proper proper) single more with
    ⟨passed, behind, spelled, all⟩
  rw [spelled]
  exact ⟨passes.append behind, all⟩

/-- Behind an expression, the reading of the chain that it begins goes on. -/
theorem nextExpression_goesOn : (tree : Expression) -> {start last : Cursor} ->
    start.Passes tree.spelling last -> tree.WellFormed -> tree.spelling.length ≤ bound ->
    EndsTerm last.lookahead.kind ->
    ∃ other, other.unplaced = tree.unplaced ∧
      Source.nextExpression term bound start =
        Source.chain term (bound - tree.operators) other last
  | .term first, start, last, passes, wellFormed, short, stop => by
      rcases reads.complete passes wellFormed short stop with ⟨other, same, done⟩
      refine ⟨.term other, congrArg Expression.term same, ?_⟩
      rw [Source.nextExpression, andThen_eq (advance_eq_some.mpr rfl), andThen_eq done]
      rfl
  | .binary left operator right, start, last, passes, wellFormed, short, stop => by
      rw [Expression.spelling] at passes short
      rw [List.length_append, List.length_cons] at short
      rcases Cursor.passes_append.mp passes with ⟨between, front, behind⟩
      have next : between.lookahead.kind = .mark operator.mark := behind.kind
      have follows : EndsTerm between.lookahead.kind := next ▸ endsTerm_operator operator
      rcases nextExpression_goesOn left front wellFormed.1 (by omega) follows with
        ⟨other, same, goesOn⟩
      have shortRight : (termForm.spelling right).length ≤ bound := by
        change right.spelling.length ≤ bound
        omega
      rcases reads.complete behind.2.2 wellFormed.2 shortRight stop with
        ⟨otherRight, sameRight, done⟩
      have fewer := operators_lt_length left
      have rounds : bound - left.operators = bound - (left.operators + 1) + 1 := by omega
      refine ⟨.binary other operator otherRight, ?_, ?_⟩
      · rw [Expression.unplaced, Expression.unplaced, same]
        exact congrArg (Expression.binary left.unplaced operator) sameRight
      · rw [goesOn, rounds, Source.chain, andThen_eq (lookahead_eq_some.mpr ⟨rfl, rfl⟩)]
        simp only [binaryOperator?_eq_some.mpr next]
        rw [andThen_eq (advance_eq_some.mpr rfl), andThen_eq (advance_eq_some.mpr rfl),
          andThen_eq done]
        rfl

theorem reads_nextExpression :
    Reads (Source.nextExpression term bound) expressionForm bound EndsExpression := by
  constructor
  · intro start last tree proper done
    exact nextExpression_sound reads proper done
  · intro start last tree passes wellFormed short stop
    rcases nextExpression_goesOn reads tree passes wellFormed short stop.2 with
      ⟨other, same, goesOn⟩
    have fewer := operators_lt_length tree
    have rounds : bound - tree.operators = bound - (tree.operators + 1) + 1 := by
      have length : tree.spelling.length ≤ bound := short
      omega
    refine ⟨other, same, ?_⟩
    rw [goesOn, rounds, Source.chain, andThen_eq (lookahead_eq_some.mpr ⟨rfl, rfl⟩)]
    simp only [stop.1]
    rfl

end Expressions

/-! ## Calls -/

theorem otherArgumentsSpelling_eq (values : List Expression) :
    otherArgumentsSpelling values =
      values.flatMap fun value => .ofMark .comma :: value.spelling := by
  induction values with
  | nil => rfl
  | cons value rest inductionHypothesis =>
      rw [otherArgumentsSpelling, inductionHypothesis]
      rfl

theorem argumentsSpelling_eq (values : List Expression) :
    argumentsSpelling values = commaSeparated Expression.spelling values := by
  cases values with
  | nil => rfl
  | cons value rest => rw [argumentsSpelling, otherArgumentsSpelling_eq, commaSeparated]

theorem argumentsWellFormed_iff (values : List Expression) :
    argumentsWellFormed values ↔ ∀ value ∈ values, value.WellFormed := by
  induction values with
  | nil => exact ⟨fun _ _ none => absurd none List.not_mem_nil, fun _ => True.intro⟩
  | cons value rest inductionHypothesis =>
      rw [argumentsWellFormed, inductionHypothesis, List.forall_mem_cons]

theorem argumentsUnplaced_eq (values : List Expression) :
    argumentsUnplaced values = values.map Expression.unplaced := by
  induction values with
  | nil => rfl
  | cons value rest inductionHypothesis =>
      rw [argumentsUnplaced, inductionHypothesis, List.map_cons]

/-- A token that an expression may begin with. -/
def BeginsExpression : TokenKind -> Prop
  | .mark .rightParen => False
  | .mark .semicolon => False
  | _ => True

theorem term_begins (tree : Term) (wellFormed : tree.WellFormed) :
    ∃ token rest, tree.spelling = token :: rest ∧ BeginsExpression token.kind := by
  cases tree with
  | integer token value =>
      refine ⟨token.unplaced, [], rfl, ?_⟩
      change BeginsExpression token.kind
      rw [wellFormed.1]
      exact True.intro
  | string token =>
      refine ⟨token.unplaced, [], rfl, ?_⟩
      change BeginsExpression token.kind
      rw [wellFormed.1]
      exact True.intro
  | constant token value => exact ⟨_, _, rfl, True.intro⟩
  | «variable» token => exact ⟨_, _, rfl, True.intro⟩
  | element token index => exact ⟨_, _, rfl, True.intro⟩
  | call target =>
      rcases target with ⟨token, qualifier, name, values⟩
      cases qualifier with
      | none => exact ⟨_, _, rfl, True.intro⟩
      | some qualifier => exact ⟨_, _, rfl, True.intro⟩
  | group token inner => exact ⟨_, _, rfl, True.intro⟩
  | unary token operator operand =>
      refine ⟨_, _, rfl, ?_⟩
      cases operator <;> exact True.intro

theorem expression_begins (tree : Expression) (wellFormed : tree.WellFormed) :
    ∃ token rest, tree.spelling = token :: rest ∧ BeginsExpression token.kind := by
  cases tree with
  | term first => exact term_begins first wellFormed
  | binary left operator right =>
      rcases expression_begins left wellFormed.1 with ⟨token, rest, spelled, begins⟩
      refine ⟨token, rest ++ .ofMark operator.mark :: right.spelling, ?_, begins⟩
      rw [Expression.spelling, spelled, List.cons_append]

/-- The names of a call, given the token of the first. -/
def target (token : Token) : Production (Option String × String) := do
  if ← Source.isFollowedBy .period then
    advance
    return (some token.literal, ← Source.name)
  else return (none, token.literal)

theorem target_sound {start last : Cursor} {qualifier : Option String} {name : String}
    (proper : start.Proper) (kind : start.lookahead.kind = .identifier)
    (done : target start.lookahead start.advance = (some (qualifier, name), last)) :
    start.Passes (targetSpelling qualifier name) last ∧
      start.lookahead.unplaced = .ofName (qualifier.getD name) := by
  have own := Token.unplaced_eq_ofName kind
  rcases andThen_eq_some.mp done with ⟨flag, _, looks, names⟩
  rcases isFollowedBy_eq_some.mp looks with ⟨period, rfl⟩
  cases flag with
  | true =>
      rcases andThen_eq_some.mp names with ⟨⟨⟩, _, moves, names⟩
      cases advance_eq_some.mp moves
      rcases andThen_eq_some.mp names with ⟨other, _, reading, answers⟩
      rcases pure_eq_some.mp answers with ⟨same, rfl⟩
      cases same
      rcases expectLiteral_eq_some.mp reading with ⟨identifier, rfl, rfl⟩
      have mark := Cursor.passes_mark proper.advance (beq_iff_eq.mp period)
      exact ⟨(Cursor.passes_name kind).append (mark.append (Cursor.passes_name identifier)), own⟩
  | false =>
      rcases pure_eq_some.mp names with ⟨same, rfl⟩
      cases same
      exact ⟨Cursor.passes_name kind, own⟩

theorem target_complete {start last : Cursor} {qualifier : Option String} {name : String}
    (passes : start.Passes (targetSpelling qualifier name) last)
    (opens : last.lookahead.kind = .mark .leftParen) :
    target start.lookahead start.advance = (some (qualifier, name), last) := by
  unfold target
  cases qualifier with
  | none =>
      have literal : start.lookahead.literal = name := passes.literal
      cases passes.2.2
      have noPeriod : (start.advance.lookahead.kind == .mark .period) = false := by
        rw [opens]
        rfl
      rw [andThen_eq (isFollowedBy_eq_some.mpr ⟨noPeriod, rfl⟩), literal]
      rfl
  | some qualifier =>
      have literal : start.lookahead.literal = qualifier := passes.literal
      have mark := passes.2.2.kind
      have period : (start.advance.lookahead.kind == .mark .period) = true := beq_iff_eq.mpr mark
      have names := passes.2.2.2.2
      cases names.2.2
      rw [andThen_eq (isFollowedBy_eq_some.mpr ⟨period, rfl⟩), if_pos rfl,
        andThen_eq (advance_eq_some.mpr rfl),
        andThen_eq (name_of_passes names), literal]
      rfl

theorem call_begins {start last : Cursor} {tree : Call} (passes : start.Passes tree.spelling last) :
    start.lookahead.kind = .identifier ∧ (start.advance.lookahead.kind = .mark .leftParen ∨
      start.advance.lookahead.kind = .mark .period) := by
  rcases tree with ⟨token, qualifier, name, values⟩
  cases qualifier with
  | none => exact ⟨passes.kind, .inl passes.2.2.kind⟩
  | some qualifier => exact ⟨passes.kind, .inr passes.2.2.kind⟩

section Calls

variable {term : Production Term} {bound : Nat}
  (reads : Reads (fun start => term start.advance) termForm bound EndsTerm)

include reads

theorem call_sound {start last : Cursor} {tree : Call} (proper : start.Proper)
    (kind : start.lookahead.kind = .identifier)
    (done : Source.call term bound start.advance = (some tree, last)) :
    start.Passes tree.spelling last ∧ tree.WellFormed := by
  rcases andThen_eq_some.mp done with ⟨token, _, here, more⟩
  rcases current_eq_some.mp here with ⟨rfl, rfl⟩
  rw [Cursor.advance_current] at more
  rcases andThen_eq_some.mp more with ⟨⟨qualifier, name⟩, middle, names, more⟩
  have target := target_sound proper kind names
  have properMiddle := target.1.proper proper
  dsimp only at more
  rcases andThen_eq_some.mp more with ⟨⟨⟩, _, opens, more⟩
  have opened := passes_expectMark properMiddle opens
  rcases andThen_eq_some.mp more with ⟨values, _, listed, more⟩
  rcases listed_sound (reads_nextExpression reads) (opened.proper properMiddle) listed with
    ⟨passes, fits⟩
  rcases andThen_eq_some.mp more with ⟨⟨⟩, _, closes, answers⟩
  have closed := passes_expectMark (passes.proper (opened.proper properMiddle)) closes
  rcases pure_eq_some.mp answers with ⟨rfl, rfl⟩
  refine ⟨?_, And.intro target.2 ((argumentsWellFormed_iff values).mpr fits)⟩
  rw [Call.spelling, argumentsSpelling_eq]
  exact target.1.append (opened.append (passes.append closed))

theorem argumentList_complete {start last : Cursor} {values : List Expression}
    (passes : start.Passes
      (enclosed .leftParen (argumentsSpelling values) .rightParen) last)
    (wellFormed : argumentsWellFormed values) (short : (argumentsSpelling values).length ≤ bound) :
    ∃ others, argumentsUnplaced others = argumentsUnplaced values ∧
      ∀ build : List Expression -> Call, (do
        Source.expectMark .leftParen
        let arguments ← listed (Source.nextExpression term bound) bound
        Source.expectMark .rightParen
        return build arguments : Production Call) start = (some (build others), last) := by
  have opened := expectMark_of_passes passes
  rw [argumentsSpelling_eq] at passes short
  rcases Cursor.passes_append.mp passes.2.2 with ⟨between, front, closing⟩
  have closed := expectMark_of_passes closing
  cases closing.2.2
  have begins (value : Expression) (fits : value.WellFormed) : ∃ token rest,
      value.spelling = token :: rest ∧ token.kind ≠ .mark .rightParen := by
    rcases expression_begins value fits with ⟨token, rest, spelled, begins⟩
    refine ⟨token, rest, spelled, fun same => ?_⟩
    rw [same] at begins
    exact begins
  rcases listed_complete (reads_nextExpression reads) ⟨rfl, True.intro⟩ ⟨rfl, True.intro⟩ begins
    front ((argumentsWellFormed_iff values).mp wellFormed) short closing.kind with
    ⟨others, sames, dones⟩
  refine ⟨others, ?_, fun build => ?_⟩
  · rw [argumentsUnplaced_eq, argumentsUnplaced_eq]
    exact sames
  · rw [andThen_eq opened, andThen_eq dones, andThen_eq closed]
    rfl

theorem call_complete {start last : Cursor} {tree : Call}
    (passes : start.Passes tree.spelling last) (wellFormed : tree.WellFormed)
    (short : tree.spelling.length ≤ bound + 1) :
    ∃ other, other.unplaced = tree.unplaced ∧
      Source.call term bound start.advance = (some other, last) := by
  rcases tree with ⟨token, qualifier, name, values⟩
  rw [Call.spelling] at passes short
  rw [List.length_append, length_enclosed] at short
  rcases Cursor.passes_append.mp passes with ⟨between, names, behind⟩
  have few : 0 < (targetSpelling qualifier name).length := by
    cases qualifier <;> exact Nat.succ_pos _
  rcases argumentList_complete reads behind wellFormed.2 (by omega) with ⟨others, same, goesOn⟩
  refine ⟨.mk start.lookahead qualifier name others, ?_, ?_⟩
  · have own : start.lookahead.unplaced = token.unplaced := by
      rw [wellFormed.1]
      cases qualifier with
      | none => exact names.2.1
      | some qualifier => exact names.2.1
    rw [Call.unplaced, Call.unplaced, own, same]
  · rw [Source.call, andThen_eq (current_eq_some.mpr ⟨rfl, rfl⟩), Cursor.advance_current]
    have named := target_complete names behind.kind
    change (target start.lookahead >>= _) start.advance = _
    rw [andThen_eq named]
    exact goesOn (.mk start.lookahead qualifier name)

end Calls

/-! ## Terms -/

theorem foreignCharacter?_eq_none {text : String} :
    Source.foreignCharacter? text = none ↔
      ∀ character ∈ text.toList, character.toNat < 128 := by
  unfold Source.foreignCharacter?
  rw [List.find?_eq_none]
  simp

theorem constant_sound {start last : Cursor} {tree : Term} (value : Constant) (proper : start.Proper)
    (kind : start.lookahead.kind = .keyword value.keyword)
    (done : (pure (.constant start.lookahead value) : Production Term) start.advance =
      (some tree, last)) : start.Passes tree.spelling last ∧ tree.WellFormed := by
  rcases pure_eq_some.mp done with ⟨rfl, rfl⟩
  have passes := Cursor.passes_keyword proper kind
  exact ⟨passes, passes.2.1⟩

section Terms

variable {bound : Nat}
  (reads : Reads (fun start => Source.term bound start.advance) termForm bound EndsTerm)

include reads

theorem closed_sound {start last : Cursor} {mark : Mark}
    (proper : start.Proper) {build : Expression -> β} {answer : β}
    (done : (do
      let inner ← Source.expression bound
      Source.expectMark mark
      return build inner : Production β) start = (some answer, last)) :
    ∃ inner, start.Passes (inner.spelling ++ [.ofMark mark]) last ∧ inner.WellFormed ∧
      answer = build inner := by
  rcases andThen_eq_some.mp done with ⟨inner, _, reading, more⟩
  rcases nextExpression_sound reads proper reading with ⟨passes, wellFormed⟩
  rcases andThen_eq_some.mp more with ⟨⟨⟩, _, closes, answers⟩
  have closed := passes_expectMark (passes.proper proper) closes
  rcases pure_eq_some.mp answers with ⟨rfl, rfl⟩
  exact ⟨inner, passes.append closed, wellFormed, rfl⟩

theorem closed_complete {start last : Cursor} {mark : Mark} {inner : Expression}
    (passes : start.Passes (inner.spelling ++ [.ofMark mark]) last) (wellFormed : inner.WellFormed)
    (short : inner.spelling.length ≤ bound) (stop : EndsExpression (.mark mark)) :
    ∃ other, other.unplaced = inner.unplaced ∧ ∀ {β : Type} (build : Expression -> β), (do
      let inner ← Source.expression bound
      Source.expectMark mark
      return build inner : Production β) start = (some (build other), last) := by
  rcases Cursor.passes_append.mp passes with ⟨between, front, closing⟩
  have closed := expectMark_of_passes closing
  have next : between.lookahead.kind = .mark mark := closing.kind
  cases closing.2.2
  rcases (reads_nextExpression reads).complete front wellFormed short (next ▸ stop) with
    ⟨other, same, done⟩
  have done : Source.expression bound start = (some other, between) := done
  refine ⟨other, same, fun build => ?_⟩
  rw [andThen_eq done, andThen_eq closed]
  rfl

theorem unary_sound {start last : Cursor} {tree : Term} (operator : UnaryOperator)
    (proper : start.Proper) (kind : start.lookahead.kind = .mark operator.mark)
    (done : (do
      advance
      return .unary start.lookahead operator (← Source.term bound) : Production Term)
      start.advance = (some tree, last)) :
    start.Passes tree.spelling last ∧ tree.WellFormed := by
  rcases andThen_eq_some.mp done with ⟨⟨⟩, _, moves, more⟩
  cases advance_eq_some.mp moves
  rcases andThen_eq_some.mp more with ⟨operand, _, one, answers⟩
  rcases pure_eq_some.mp answers with ⟨rfl, rfl⟩
  have mark := Cursor.passes_mark proper kind
  rcases reads.sound proper.advance one with ⟨passes, wellFormed⟩
  exact ⟨mark.append passes, And.intro mark.2.1 wellFormed⟩

theorem term_sound {start last : Cursor} {tree : Term} (proper : start.Proper)
    (done : Source.term (bound + 1) start.advance = (some tree, last)) :
    start.Passes tree.spelling last ∧ tree.WellFormed := by
  rcases andThen_eq_some.mp done with ⟨token, _, here, more⟩
  rcases current_eq_some.mp here with ⟨rfl, rfl⟩
  rw [Cursor.advance_current] at more
  generalize kind : start.lookahead.kind = found at more
  split at more
  · cases denotes : start.lookahead.value? with
    | none =>
        simp only [denotes] at more
        cases more
    | some value =>
        simp only [denotes] at more
        rcases pure_eq_some.mp more with ⟨rfl, rfl⟩
        have passes := Cursor.passes_lookahead (kind ▸ nofun : start.lookahead.kind ≠ .endOfFile)
        exact ⟨passes, Token.value?_eq_some.mp denotes⟩
  · cases plain : Source.foreignCharacter? start.lookahead.literal with
    | some character =>
        simp only [plain] at more
        cases more
    | none =>
        simp only [plain] at more
        rcases pure_eq_some.mp more with ⟨rfl, rfl⟩
        have passes := Cursor.passes_lookahead (kind ▸ nofun : start.lookahead.kind ≠ .endOfFile)
        exact ⟨passes, And.intro kind (foreignCharacter?_eq_none.mp plain)⟩
  · exact constant_sound .true proper kind more
  · exact constant_sound .false proper kind more
  · exact constant_sound .null proper kind more
  · exact constant_sound .this proper kind more
  · have named := Cursor.passes_name kind
    rcases andThen_eq_some.mp more with ⟨token, _, looks, more⟩
    rcases lookahead_eq_some.mp looks with ⟨rfl, rfl⟩
    generalize next : start.advance.lookahead.kind = following at more
    split at more
    · rcases andThen_eq_some.mp more with ⟨⟨⟩, _, moves, more⟩
      cases advance_eq_some.mp moves
      rcases closed_sound reads proper.advance.advance more with ⟨inner, passes, wellFormed, rfl⟩
      have opened := Cursor.passes_mark proper.advance next
      exact ⟨named.append (opened.append passes), And.intro kind wellFormed⟩
    · rcases andThen_eq_some.mp more with ⟨target, _, calls, answers⟩
      rcases pure_eq_some.mp answers with ⟨rfl, rfl⟩
      exact call_sound reads proper kind calls
    · rcases andThen_eq_some.mp more with ⟨target, _, calls, answers⟩
      rcases pure_eq_some.mp answers with ⟨rfl, rfl⟩
      exact call_sound reads proper kind calls
    · rcases pure_eq_some.mp more with ⟨rfl, rfl⟩
      exact ⟨named, kind⟩
  · rcases closed_sound reads proper.advance more with ⟨inner, passes, wellFormed, rfl⟩
    have opened := Cursor.passes_mark proper kind
    exact ⟨opened.append passes, And.intro opened.2.1 wellFormed⟩
  · exact unary_sound reads .neg proper kind more
  · exact unary_sound reads .not proper kind more
  · cases more

theorem unary_complete {start last : Cursor} (operator : UnaryOperator) {operand : Term}
    (passes : start.advance.Passes operand.spelling last) (wellFormed : operand.WellFormed)
    (short : operand.spelling.length ≤ bound) (stop : EndsTerm last.lookahead.kind) :
    ∃ other, other.unplaced = operand.unplaced ∧ (do
      advance
      return .unary start.lookahead operator (← Source.term bound) : Production Term)
      start.advance = (some (.unary start.lookahead operator other), last) := by
  rcases reads.complete passes wellFormed short stop with ⟨other, same, done⟩
  refine ⟨other, same, ?_⟩
  rw [andThen_eq (advance_eq_some.mpr rfl), andThen_eq done]
  rfl

theorem term_complete {start last : Cursor} {tree : Term}
    (passes : start.Passes tree.spelling last) (wellFormed : tree.WellFormed)
    (short : tree.spelling.length ≤ bound + 1) (stop : EndsTerm last.lookahead.kind) :
    ∃ other, other.unplaced = tree.unplaced ∧
      Source.term (bound + 1) start.advance = (some other, last) := by
  rw [Source.term, andThen_eq (current_eq_some.mpr ⟨rfl, rfl⟩), Cursor.advance_current]
  cases tree with
  | integer token value =>
      have own : start.lookahead.unplaced = token.unplaced := passes.2.1
      have kind : start.lookahead.kind = .integer := passes.kind.trans wellFormed.1
      have literal : start.lookahead.literal = token.literal := passes.literal
      have denotes : start.lookahead.value? = some value :=
        Token.value?_eq_some.mpr ⟨kind, literal ▸ wellFormed.2⟩
      cases passes.2.2
      refine ⟨.integer start.lookahead value, congrArg (Term.integer · value) own, ?_⟩
      simp only [kind, denotes]
      rfl
  | string token =>
      have own : start.lookahead.unplaced = token.unplaced := passes.2.1
      have kind : start.lookahead.kind = .string := passes.kind.trans wellFormed.1
      have literal : start.lookahead.literal = token.literal := passes.literal
      have plain : Source.foreignCharacter? start.lookahead.literal = none :=
        foreignCharacter?_eq_none.mpr (literal ▸ wellFormed.2)
      cases passes.2.2
      refine ⟨.string start.lookahead, congrArg Term.string own, ?_⟩
      simp only [kind, plain]
      rfl
  | constant token value =>
      have own : start.lookahead.unplaced = token.unplaced := passes.2.1.trans wellFormed.symm
      have kind : start.lookahead.kind = .keyword value.keyword := passes.kind
      cases passes.2.2
      refine ⟨.constant start.lookahead value, congrArg (Term.constant · value) own, ?_⟩
      cases value with
      | true => simp only [show start.lookahead.kind = .keyword .true from kind]; rfl
      | false => simp only [show start.lookahead.kind = .keyword .false from kind]; rfl
      | null => simp only [show start.lookahead.kind = .keyword .null from kind]; rfl
      | this => simp only [show start.lookahead.kind = .keyword .this from kind]; rfl
  | «variable» token =>
      have own : start.lookahead.unplaced = token.unplaced :=
        passes.2.1.trans (Token.unplaced_eq_ofName wellFormed).symm
      have kind : start.lookahead.kind = .identifier := passes.kind
      cases passes.2.2
      refine ⟨.variable start.lookahead, congrArg Term.variable own, ?_⟩
      simp only [kind]
      rw [andThen_eq (lookahead_eq_some.mpr ⟨rfl, rfl⟩)]
      generalize start.advance.lookahead.kind = next at stop
      split
      · exact absurd stop id
      · exact absurd stop id
      · exact absurd stop id
      · rfl
  | element token index =>
      have own : start.lookahead.unplaced = token.unplaced :=
        passes.2.1.trans (Token.unplaced_eq_ofName wellFormed.1).symm
      have kind : start.lookahead.kind = .identifier := passes.kind
      have next : start.advance.lookahead.kind = .mark .leftBracket := passes.2.2.kind
      rw [Term.spelling, List.length_cons, length_enclosed] at short
      rcases closed_complete reads passes.2.2.2.2 wellFormed.2 (by omega) ⟨rfl, True.intro⟩ with
        ⟨other, same, done⟩
      refine ⟨.element start.lookahead other, ?_, ?_⟩
      · rw [Term.unplaced, Term.unplaced, own, same]
      · simp only [kind]
        rw [andThen_eq (lookahead_eq_some.mpr ⟨rfl, rfl⟩)]
        simp only [next]
        rw [andThen_eq (advance_eq_some.mpr rfl)]
        exact done (Term.element start.lookahead)
  | call target =>
      rcases call_complete reads passes wellFormed short with ⟨other, same, done⟩
      refine ⟨.call other, congrArg Term.call same, ?_⟩
      have answers : (do return .call (← Source.call (Source.term bound) bound) : Production Term)
          start.advance = (some (.call other), last) := by
        rw [andThen_eq done]
        rfl
      rcases call_begins passes with ⟨kind, next | next⟩
      · simp only [kind]
        rw [andThen_eq (lookahead_eq_some.mpr ⟨rfl, rfl⟩)]
        simp only [next]
        exact answers
      · simp only [kind]
        rw [andThen_eq (lookahead_eq_some.mpr ⟨rfl, rfl⟩)]
        simp only [next]
        exact answers
  | group token inner =>
      have own : start.lookahead.unplaced = token.unplaced := passes.2.1.trans wellFormed.1.symm
      have kind : start.lookahead.kind = .mark .leftParen := passes.kind
      rw [Term.spelling, length_enclosed] at short
      rcases closed_complete reads passes.2.2 wellFormed.2 (by omega) ⟨rfl, True.intro⟩ with
        ⟨other, same, done⟩
      refine ⟨.group start.lookahead other, ?_, ?_⟩
      · rw [Term.unplaced, Term.unplaced, own, same]
      · simp only [kind]
        exact done (Term.group start.lookahead)
  | unary token operator operand =>
      have own : start.lookahead.unplaced = token.unplaced := passes.2.1.trans wellFormed.1.symm
      have kind : start.lookahead.kind = .mark operator.mark := passes.kind
      rw [Term.spelling, List.length_cons] at short
      rcases unary_complete reads operator passes.2.2 wellFormed.2 (Nat.le_of_succ_le_succ short)
        stop with ⟨other, same, done⟩
      refine ⟨.unary start.lookahead operator other, ?_, ?_⟩
      · rw [Term.unplaced, Term.unplaced, own, same]
      · cases operator with
        | neg =>
            simp only [show start.lookahead.kind = .mark .minus from kind]
            exact done
        | not =>
            simp only [show start.lookahead.kind = .mark .tilde from kind]
            exact done

end Terms

/-- Terms are read with any bound, by which then only so many tokens are passed. -/
theorem reads_term (bound : Nat) :
    Reads (fun start => Source.term bound start.advance) termForm bound EndsTerm := by
  induction bound with
  | zero =>
      constructor
      · intro start last tree proper done
        exact absurd done exhausted_ne_some
      · intro start last tree passes wellFormed short stop
        have empty := List.length_eq_zero_iff.mp (Nat.le_zero.mp short)
        exact absurd empty (term_spelling_ne_nil tree)
  | succ bound reads =>
      constructor
      · intro start last tree proper done
        exact term_sound reads proper done
      · intro start last tree passes wellFormed short stop
        exact term_complete reads passes wellFormed short stop

theorem reads_expression (bound : Nat) :
    Reads (Source.expression bound) expressionForm bound EndsExpression :=
  reads_nextExpression (reads_term bound)

end Jack
end HackToolchain
