import HackToolchain.Proofs.Jack.Preservation

namespace HackToolchain
namespace Jack

/-!
# The parts of a subroutine

Every expression and every statement of a subroutine has a stretch of code in the subroutine's code,
because code is written part by part.  What is known of the code of trees so holds at every part of a
subroutine, wherever it occurs.
-/

open Vm

/-- The trees that code is written for. -/
inductive Part where
  | term (tree : Term)
  | expression (tree : Expression)
  | call (tree : Call)
  | arguments (trees : List Expression)
  | statement (tree : Statement)
  | statements (trees : List Statement)

namespace Part

/-- How the code of a part is written. -/
def emission (scopes : Scopes) : Part -> Emission Unit
  | .term tree => Code.term scopes tree
  | .expression tree => Code.expression scopes tree
  | .call tree => Code.call scopes tree
  | .arguments trees => Code.arguments scopes trees
  | .statement tree => Code.statement scopes tree
  | .statements trees => Code.statements scopes trees

/-- No call in a part has too many arguments. -/
def Fits : Part -> Prop
  | .term tree => tree.Fits
  | .expression tree => tree.Fits
  | .call tree => tree.Fits
  | .arguments trees => argumentsFit trees
  | .statement tree => tree.Fits
  | .statements trees => statementsFit trees

/-- A part stands directly in another one. -/
inductive Child : Part -> Part -> Prop where
  | element (token : Token) (index : Expression) :
      Child (.expression index) (.term (.element token index))
  | called (tree : Call) : Child (.call tree) (.term (.call tree))
  | group (token : Token) (inner : Expression) :
      Child (.expression inner) (.term (.group token inner))
  | operand (token : Token) (operator : UnaryOperator) (operand : Term) :
      Child (.term operand) (.term (.unary token operator operand))
  | single (tree : Term) : Child (.term tree) (.expression (.term tree))
  | left (left : Expression) (operator : BinaryOperator) (right : Term) :
      Child (.expression left) (.expression (.binary left operator right))
  | right (left : Expression) (operator : BinaryOperator) (right : Term) :
      Child (.term right) (.expression (.binary left operator right))
  | arguments (token : Token) (qualifier : Option String) (name : String)
      (values : List Expression) :
      Child (.arguments values) (.call (.mk token qualifier name values))
  | argument (first : Expression) (rest : List Expression) :
      Child (.expression first) (.arguments (first :: rest))
  | otherArguments (first : Expression) (rest : List Expression) :
      Child (.arguments rest) (.arguments (first :: rest))
  | assigned (token : Token) (name : String) (index : Option Expression) (value : Expression) :
      Child (.expression value) (.statement (.assign token name index value))
  | index (token : Token) (name : String) (index value : Expression) :
      Child (.expression index) (.statement (.assign token name (some index) value))
  | branchCondition (token : Token) (condition : Expression) (consequence : List Statement)
      (alternative : Option (List Statement)) :
      Child (.expression condition) (.statement (.branch token condition consequence alternative))
  | consequence (token : Token) (condition : Expression) (consequence : List Statement)
      (alternative : Option (List Statement)) :
      Child (.statements consequence) (.statement (.branch token condition consequence alternative))
  | alternative (token : Token) (condition : Expression)
      (consequence alternative : List Statement) :
      Child (.statements alternative)
        (.statement (.branch token condition consequence (some alternative)))
  | loopCondition (token : Token) (condition : Expression) (body : List Statement) :
      Child (.expression condition) (.statement (.loop token condition body))
  | body (token : Token) (condition : Expression) (body : List Statement) :
      Child (.statements body) (.statement (.loop token condition body))
  | performed (token : Token) (target : Call) :
      Child (.call target) (.statement (.perform token target))
  | returned (token : Token) (value : Expression) :
      Child (.expression value) (.statement (.«return» token (some value)))
  | first (first : Statement) (rest : List Statement) :
      Child (.statement first) (.statements (first :: rest))
  | rest (first : Statement) (rest : List Statement) :
      Child (.statements rest) (.statements (first :: rest))

/-- A part stands somewhere in another one, or is that part. -/
abbrev Inside : Part -> Part -> Prop := Relation.ReflTransGen Child

/-- A stretch of a routine holds the code that is written for a part. -/
def Placed (scopes : Scopes) (routine : Routine) (first last : Nat) (part : Part) : Prop :=
  ∃ labels commands after, Writes (part.emission scopes) labels commands () after ∧
    routine.Stretch first commands last

section Places

variable {scopes : Scopes} {routine : Routine} {part whole : Part}

theorem Child.fits (child : Child part whole) (fits : whole.Fits) : part.Fits := by
  cases child with
  | element | called | group | operand | single => exact fits
  | left => exact fits.1
  | right => exact fits.2
  | arguments => exact fits.2
  | argument => exact fits.1
  | otherArguments => exact fits.2
  | assigned token name index value =>
      cases index with
      | none => exact fits
      | some index => exact fits.2
  | index => exact fits.1
  | branchCondition token condition consequence alternative =>
      cases alternative with
      | none => exact fits.1
      | some alternative => exact fits.1
  | consequence token condition consequence alternative =>
      cases alternative with
      | none => exact fits.2
      | some alternative => exact fits.2.1
  | alternative => exact fits.2.2
  | loopCondition => exact fits.1
  | body => exact fits.2
  | performed | returned => exact fits
  | first => exact fits.1
  | rest => exact fits.2

/-- Code inside a stretch of code is a stretch. -/
theorem placed_within {labels after : LabelCounts} {code commands : List Command}
    {first last : Nat} (writes : Writes (part.emission scopes) labels code () after)
    (stretch : routine.Stretch first commands last) (within : code <:+: commands) :
    ∃ first' last', first ≤ first' ∧ last' ≤ last ∧ part.Placed scopes routine first' last' := by
  rcases within with ⟨before, behind, rfl⟩
  rcases stretch.append with ⟨last', front, rest⟩
  rcases front.append with ⟨first', skipped, inner⟩
  exact ⟨first', last', skipped.le, rest.le, labels, code, after, writes, inner⟩

/-- The code of a part that stands in another one is a stretch of its code. -/
theorem Child.placed (child : Child part whole) {first last : Nat}
    (placed : whole.Placed scopes routine first last) :
    ∃ first' last', first ≤ first' ∧ last' ≤ last ∧ part.Placed scopes routine first' last' := by
  rcases placed with ⟨labels, commands, after, writes, stretch⟩
  cases child <;> dsimp only [emission] at writes
  case called | group | single =>
      exact placed_within writes stretch (List.infix_refl commands)
  case element token index =>
      rcases writes_element writes with ⟨array, inner, -, indexes, rfl⟩
      exact placed_within indexes stretch ⟨_, _, rfl⟩
  case operand token operator operand =>
      rcases writes_unary writes with ⟨inner, operands, rfl⟩
      exact placed_within operands stretch ⟨[], _, rfl⟩
  case left left operator right =>
      rcases writes_binary writes with ⟨between, front, behind, lefts, rights, rfl⟩
      exact placed_within lefts stretch (List.infix_append_of_infix_left List.infix_append_left)
  case right left operator right =>
      rcases writes_binary writes with ⟨between, front, behind, lefts, rights, rfl⟩
      exact placed_within rights stretch ⟨front, _, rfl⟩
  case arguments token qualifier name values =>
      rcases writes_call writes with ⟨inner, arguments, rfl⟩
      exact placed_within arguments stretch ⟨_, _, rfl⟩
  case argument tree rest =>
      rcases writes_arguments writes with ⟨between, front, behind, firsts, rests, rfl⟩
      exact placed_within firsts stretch ⟨[], behind, rfl⟩
  case otherArguments tree rest =>
      rcases writes_arguments writes with ⟨between, front, behind, firsts, rests, rfl⟩
      exact placed_within rests stretch ⟨front, [], by simp⟩
  case assigned token name index value =>
      cases index with
      | none =>
          rcases writes_assign writes with ⟨inner, declared, values, -, rfl⟩
          exact placed_within values stretch ⟨[], _, rfl⟩
      | some index =>
          rcases writes_assignElement writes with
            ⟨array, between, front, behind, -, indexes, values, rfl⟩
          exact placed_within values stretch ⟨_, _, rfl⟩
  case index token name index value =>
      rcases writes_assignElement writes with
        ⟨array, between, front, behind, -, indexes, values, rfl⟩
      have within : front <:+: [array.push] ++ front := List.infix_append_right
      exact placed_within indexes stretch (List.infix_append_of_infix_left
        (List.infix_append_of_infix_left (List.infix_append_of_infix_left within)))
  case branchCondition token condition consequence alternative =>
      cases alternative with
      | none =>
          rcases writes_branch writes with ⟨between, test, inner, tests, inners, rfl⟩
          exact placed_within tests stretch (List.infix_append_of_infix_left
            (List.infix_append_of_infix_left List.infix_append_left))
      | some alternative =>
          rcases writes_alternative writes with
            ⟨between, _, _, middle, test, inner, other, tests, rfl, rfl, inners, others, rfl⟩
          have within (otherwise : String) :
              test <:+: test ++ [.arithmetic .not, .ifGoto otherwise] ++ inner :=
            List.infix_append_of_infix_left List.infix_append_left
          exact placed_within tests stretch (List.infix_append_of_infix_left
            (List.infix_append_of_infix_left (List.infix_append_of_infix_left (within _))))
  case consequence token condition consequence alternative =>
      cases alternative with
      | none =>
          rcases writes_branch writes with ⟨between, test, inner, tests, inners, rfl⟩
          exact placed_within inners stretch ⟨_, _, rfl⟩
      | some alternative =>
          rcases writes_alternative writes with
            ⟨between, _, _, middle, test, inner, other, tests, rfl, rfl, inners, others, rfl⟩
          exact placed_within inners stretch (List.infix_append_of_infix_left
            (List.infix_append_of_infix_left (List.infix_append_of_infix_left
              List.infix_append_right)))
  case alternative token condition consequence alternative =>
      rcases writes_alternative writes with
        ⟨between, _, _, middle, test, inner, other, tests, rfl, rfl, inners, others, rfl⟩
      exact placed_within others stretch ⟨_, _, rfl⟩
  case loopCondition token condition body =>
      rcases writes_loop writes with ⟨_, _, middle, test, inner, rfl, rfl, tests, inners, rfl⟩
      exact placed_within tests stretch (List.infix_append_of_infix_left
        (List.infix_append_of_infix_left (List.infix_append_of_infix_left
          List.infix_append_right)))
  case body token condition body =>
      rcases writes_loop writes with ⟨_, _, middle, test, inner, rfl, rfl, tests, inners, rfl⟩
      exact placed_within inners stretch ⟨_, _, rfl⟩
  case performed token target =>
      rcases writes_perform writes with ⟨inner, calls, rfl⟩
      exact placed_within calls stretch ⟨[], _, rfl⟩
  case returned token value =>
      rcases writes_return writes with ⟨inner, values, rfl⟩
      exact placed_within values stretch ⟨[], _, rfl⟩
  case first tree rest =>
      rcases writes_statements writes with ⟨between, front, behind, firsts, rests, rfl⟩
      exact placed_within firsts stretch ⟨[], behind, rfl⟩
  case rest tree rest =>
      rcases writes_statements writes with ⟨between, front, behind, firsts, rests, rfl⟩
      exact placed_within rests stretch ⟨front, [], by simp⟩

theorem Inside.fits (inside : Inside part whole) (fits : whole.Fits) : part.Fits := by
  induction inside using Relation.ReflTransGen.head_induction_on with
  | refl => exact fits
  | head child _ inductionHypothesis => exact child.fits inductionHypothesis

theorem Inside.placed (inside : Inside part whole) {first last : Nat}
    (placed : whole.Placed scopes routine first last) :
    ∃ first' last', first ≤ first' ∧ last' ≤ last ∧ part.Placed scopes routine first' last' := by
  induction inside using Relation.ReflTransGen.head_induction_on with
  | refl => exact ⟨first, last, Nat.le_refl first, Nat.le_refl last, placed⟩
  | head child _ inductionHypothesis =>
      rcases inductionHypothesis with ⟨first', last', below, above, placed⟩
      rcases child.placed placed with ⟨first'', last'', inner, outer, placed⟩
      exact ⟨first'', last'', below.trans inner, outer.trans above, placed⟩

end Places

/-- A stretch of code does what a part means.  Expressions push their values.  Statements finish,
return or run on. -/
def Kept (setting : Setting) (routine : Routine) (first last : Nat) : Part -> Prop
  | .term tree => ∀ store, ∃ value final,
    Meaning.term setting routine.calls tree store = some (value, final) ∧
      Pushes routine first last store [value] final
  | .expression tree => ∀ store, ∃ value final,
    Meaning.expression setting routine.calls tree store = some (value, final) ∧
      Pushes routine first last store [value] final
  | .call tree => ∀ store, ∃ value final,
    Meaning.call setting routine.calls tree store = some (value, final) ∧
      Pushes routine first last store [value] final
  | .arguments trees => ∀ store, ∃ values final,
    Meaning.arguments setting routine.calls trees store = some (values, final) ∧
      Pushes routine first last store values final
  | .statement tree => ∀ stack store, Realizes routine first last ⟨first, stack, store⟩ stack
    fun rounds => Meaning.statement setting routine.calls rounds tree store
  | .statements trees => ∀ stack store, Realizes routine first last ⟨first, stack, store⟩ stack
    fun rounds => Meaning.statements setting routine.calls rounds trees store

/-- The code of a part does what the part means. -/
theorem Placed.kept {setting : Setting} {scopes : Scopes} {routine : Routine} {first last : Nat}
    {part : Part} (placed : part.Placed scopes routine first last)
    (settled : InSetting setting scopes routine) (unique : (definedLabels routine.code).Nodup)
    (fits : part.Fits) : part.Kept setting routine first last := by
  rcases placed with ⟨labels, commands, after, writes, stretch⟩
  cases part with
  | term tree => exact term_pushes settled tree fits writes stretch
  | expression tree => exact expression_pushes settled tree fits writes stretch
  | call tree => exact call_pushes settled tree fits writes stretch
  | arguments trees =>
      intro store
      rcases arguments_pushes settled trees fits writes stretch store with
        ⟨values, final, evaluated, -, pushes⟩
      exact ⟨values, final, evaluated, pushes⟩
  | statement tree =>
      intro stack store
      exact .of_comesTo fun rounds =>
        statement_comes settled unique rounds tree fits writes stretch stack store
  | statements trees =>
      intro stack store
      exact .of_comesTo fun rounds =>
        statements_come settled unique rounds trees fits writes stretch stack store

end Part

end Jack
end HackToolchain
